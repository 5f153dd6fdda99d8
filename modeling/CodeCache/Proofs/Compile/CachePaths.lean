/-
Where a cache goes: one step below the output directory, under a name made of the source's.

A stem is never empty and an extension is a point and more, so what they make together is neither `.`
nor `..`, whatever points are in it, and neither has a slash. A path is told by its components here,
which every spelling of it has; for the file system, the step is one in the directory that the output
leads to, links on the way included.

Paths may be any bytes, and are in letters then. The name of a cache is a text: the stem is shown in
it, and what is not UTF-8 is shown as U+FFFD whatever it is. So caches are told apart by what is shown
of the stems: for stems in UTF-8 that is the stems themselves, and others may share a cache
(`Draft.not_cachePath_told`).

Main result, `Draft.cachePath_contained`: for sources and outputs of any bytes, with `Draft.Contained`
for those that are texts.
-/
import CodeCache.Proofs.Compile.NamedOutputs
import CodeCache.Proofs.Compile.Resolution
import CodeCache.Proofs.System.Containing
import CodeCache.Proofs.System.Respelling
import CodeCache.Proofs.Text.Defects

namespace CodeCache

variable {d d' : Draft} {o o' : Options}

/-! ## Paths that are texts -/

theorem Draft.isNormal_compiledName (hd : d.resolve = .ok o) : Path.IsNormal o.compiledName := by
  obtain ⟨hne, hslash⟩ := Draft.isPlain_compiledName hd
  obtain ⟨hdot, hdots⟩ := Draft.compiledName_ne hd
  exact ⟨hne, hslash, hdot, hdots⟩

/-- a source has a file name -/
theorem Draft.names_ne_nil (hd : d.resolve = .ok o) : Path.names o.filename ≠ [] := by
  obtain ⟨husable, rfl⟩ := Draft.resolve_eq_ok_iff.1 hd
  intro hnil
  have hfile := husable.file
  change Path.names d.filename = [] at hnil
  rw [Path.fileName?, hnil] at hfile
  cases hfile

theorem Draft.exists_stem (hd : d.resolve = .ok o) : ∃ stem, Path.stem? o.filename = some stem := by
  obtain ⟨husable, rfl⟩ := Draft.resolve_eq_ok_iff.1 hd
  exact Path.exists_stem? husable.file

/-- names with the same extension differ where their stems do -/
theorem Draft.compiledName_eq_iff (hd : d.resolve = .ok o) (hd' : d'.resolve = .ok o')
    (hextension : o'.extension = o.extension) :
    o'.compiledName = o.compiledName ↔ Path.stem? o'.filename = Path.stem? o.filename := by
  obtain ⟨stem, hstem⟩ := Draft.exists_stem hd
  obtain ⟨stem', hstem'⟩ := Draft.exists_stem hd'
  rw [Options.compiledName_eq, Options.compiledName_eq, hextension, hstem, hstem', Option.getD_some,
    Option.getD_some, List.append_cancel_right_eq, Option.some.injEq]

theorem Draft.components_cachePath (hd : d.resolve = .ok o) :
    Path.components o.cachePath = Path.components o.output ++ [.name o.compiledName] :=
  Path.components_join_name (Draft.isNormal_compiledName hd) o.output

theorem Draft.components_cachePath_eq_iff (hd : d.resolve = .ok o) (hd' : d'.resolve = .ok o')
    (houtput : Path.components o'.output = Path.components o.output)
    (hextension : o'.extension = o.extension) :
    Path.components o'.cachePath = Path.components o.cachePath ↔
      Path.stem? o'.filename = Path.stem? o.filename := by
  rw [Draft.components_cachePath hd, Draft.components_cachePath hd', houtput,
    List.append_cancel_left_eq, List.singleton_inj, Path.Component.name.injEq,
    Draft.compiledName_eq_iff hd hd' hextension]

/-- an output that is not given is the directory of the source -/
theorem Draft.output_of_none (hd : d.resolve = .ok o) (hnone : d.output = none) :
    o.output = Path.directory o.filename := by
  obtain ⟨-, rfl⟩ := Draft.resolve_eq_ok_iff.1 hd
  rw [Draft.filled, hnone, Option.getD_none]

/-- The cache of options stays in the output directory: its name is one normal component, which its
path has behind the components of the output. What that path leads to is in the directory the output
leads to, under this name. An output that is not given has the components of the source but for the
last, or is `.`, and leads to the directory that the source is in. For outputs and extensions that are
the same, the paths of two caches are the same exactly if the stems of their sources are, by their
components as by their texts. -/
structure Draft.Contained (d : Draft) (o : Options) : Prop where
  name : Path.IsNormal o.compiledName
  components : Path.components o.cachePath = Path.components o.output ++ [.name o.compiledName]
  leads : o.output ≠ [] → ∀ (files : FileSystem) here r node,
    files.place here .upTo o.cachePath = .ok ⟨r, node⟩ →
      ∃ above, r = above ++ [o.compiledName] ∧ files.find here o.output = .ok (above, .directory)
  beside : d.output = none →
    Path.components o.output =
      (if (Path.components o.filename).dropLast = [] then [.here]
        else (Path.components o.filename).dropLast) ∧
    ∀ (files : FileSystem) here r node,
      files.place here .upTo o.filename = .ok ⟨r, node⟩ → node ≠ some .directory →
        ∃ above name, r = above ++ [name] ∧ Path.fileName? o.filename = some name ∧
          files.find here o.output = .ok (above, .directory)
  same : ∀ d' o', Draft.resolve d' = .ok o' → o'.extension = o.extension →
    (Path.components o'.output = Path.components o.output →
      (Path.components o'.cachePath = Path.components o.cachePath ↔
        Path.stem? o'.filename = Path.stem? o.filename)) ∧
    (o'.output = o.output →
      (o'.cachePath = o.cachePath ↔ Path.stem? o'.filename = Path.stem? o.filename))

theorem Draft.contained (hd : d.resolve = .ok o) : d.Contained o where
  name := Draft.isNormal_compiledName hd
  components := Draft.components_cachePath hd
  leads := by
    intro hne files here r node hplace
    exact FileSystem.find_of_place_join (Draft.isNormal_compiledName hd) hne hplace
  beside := by
    intro hnone
    rw [Draft.output_of_none hd hnone]
    refine ⟨Path.components_directory (Draft.names_ne_nil hd), ?_⟩
    intro files here r node hplace hnode
    exact FileSystem.find_directory hnode hplace
  same := by
    intro d' o' hd' hextension
    refine ⟨fun houtput => Draft.components_cachePath_eq_iff hd hd' houtput hextension, ?_⟩
    intro houtput
    have hcomponents : Path.components o'.output = Path.components o.output := by rw [houtput]
    constructor
    · intro hpath
      exact (Draft.components_cachePath_eq_iff hd hd' hcomponents hextension).1 (by rw [hpath])
    · intro hstem
      rw [Options.cachePath, Options.cachePath, houtput,
        (Draft.compiledName_eq_iff hd hd' hextension).2 hstem]

/-! ## Paths of any bytes -/

/-- what is asked for, with a source and an output of any bytes: they are in letters -/
def Draft.lettered (d : Draft) (source : Bytes) (output : Option Bytes) : Draft :=
  { d with filename := source.letters, output := output.map Bytes.letters }

/-- the path of the cache, in letters as the output is -/
def Options.letteredCachePath (o : Options) (source : Bytes) : Text :=
  Path.join o.output (cacheName source o.extension).lettered

section Bytewise

variable {source source' : Bytes} {output output' : Option Bytes}

theorem sourceStem_spec (hfile : (Path.fileName? source.letters).isSome) :
    sourceStem source ≠ [] ∧ ∀ b ∈ sourceStem source, b.toNat ≠ '/'.toNat := by
  obtain ⟨stem, hstem⟩ := Path.exists_stem? hfile
  obtain ⟨hne, hin⟩ := Path.mem_of_mem_stem? hstem
  rw [sourceStem, hstem, Option.getD_some]
  refine ⟨mt List.map_eq_nil_iff.1 hne, ?_⟩
  intro b hb hslash
  obtain ⟨c, hc, rfl⟩ := Bytes.mem_ofLetters hb
  obtain ⟨hsource, hother⟩ := hin c hc
  -- a letter is below 256, so it is read back as its byte
  obtain ⟨byte, -, hbyte⟩ := Bytes.mem_letters hsource
  rw [← hbyte, UInt8.ofNat_toNat, hbyte] at hslash
  exact hother (Char.toNat_inj.1 hslash)

theorem Draft.isNormal_cacheName (hd : (d.lettered source output).resolve = .ok o) :
    Path.IsNormal (cacheName source o.extension) := by
  obtain ⟨husable, rfl⟩ := Draft.resolve_eq_ok_iff.1 hd
  obtain ⟨hne, hslash⟩ := sourceStem_spec husable.file
  have hshown : IsPlain (Utf8.decodeLossy (sourceStem source)) := by
    refine ⟨Utf8.decodeLossy_ne_nil hne, ?_⟩
    intro hmem
    obtain ⟨b, hb, hnumber⟩ := Utf8.mem_decodeLossy hmem (by decide)
    exact hslash b hb hnumber
  have hbare := husable.extension.isPlain
  obtain ⟨hnonempty, hno⟩ := hshown.extended hbare
  obtain ⟨hdot, hdots⟩ := hshown.extended_ne hbare
  exact ⟨hnonempty, hno, hdot, hdots⟩

theorem Draft.components_letteredCachePath (hd : (d.lettered source output).resolve = .ok o) :
    Path.components (o.letteredCachePath source) =
      Path.components o.output ++ [.name (cacheName source o.extension).lettered] := by
  refine Path.components_join_name ?_ o.output
  rw [Text.lettered_eq]
  exact Text.respells_lettered.isNormal_respell.2 (Draft.isNormal_cacheName hd)

/-- caches with the same extension have the same name where the same is shown of the stems -/
theorem cacheName_eq_iff {extension : Text} :
    cacheName source' extension = cacheName source extension ↔
      Utf8.decodeLossy (sourceStem source') = Utf8.decodeLossy (sourceStem source) :=
  iff_of_eq (List.append_cancel_right_eq _ _ _)

theorem Draft.components_letteredCachePath_eq_iff
    (hd : (d.lettered source output).resolve = .ok o)
    (hd' : (d'.lettered source' output').resolve = .ok o') (hextension : o'.extension = o.extension)
    (houtput : Path.components o'.output = Path.components o.output) :
    Path.components (o'.letteredCachePath source') = Path.components (o.letteredCachePath source) ↔
      Utf8.decodeLossy (sourceStem source') = Utf8.decodeLossy (sourceStem source) := by
  rw [Draft.components_letteredCachePath hd, Draft.components_letteredCachePath hd', houtput,
    List.append_cancel_left_eq, List.singleton_inj, Path.Component.name.injEq, Text.lettered_inj,
    hextension, cacheName_eq_iff]

/-- stems in UTF-8 are shown as they are -/
theorem decodeLossy_sourceStem_eq_iff (h : Utf8.WellFormed (sourceStem source))
    (h' : Utf8.WellFormed (sourceStem source')) :
    Utf8.decodeLossy (sourceStem source') = Utf8.decodeLossy (sourceStem source) ↔
      sourceStem source' = sourceStem source := by
  obtain ⟨stem, hstem⟩ := h
  obtain ⟨stem', hstem'⟩ := h'
  rw [hstem, hstem', Utf8.decodeLossy_encode, Utf8.decodeLossy_encode, Utf8.encode_inj]

end Bytewise

/-- Options for texts are those for their bytes. -/
theorem Draft.resolve_of_lettered {file : Text} {directory : Option Text}
    (hd : (d.lettered (Utf8.encode file) (directory.map Utf8.encode)).resolve = .ok o) :
    ∃ t, Draft.resolve { d with filename := file, output := directory } = .ok t ∧
      o = { t with filename := t.filename.lettered, output := t.output.lettered } := by
  obtain ⟨⟨hfile, hextension, hloader⟩, rfl⟩ := Draft.resolve_eq_ok_iff.1 hd
  have hspelled : (Utf8.encode file).letters = file.lettered := rfl
  refine ⟨_, Draft.resolve_eq_ok_iff.2 ⟨⟨?_, hextension, hloader⟩, rfl⟩, ?_⟩
  · rw [Draft.lettered, hspelled, Text.lettered_eq, Text.respells_lettered.fileName?_respell,
      Option.isSome_map] at hfile
    exact hfile
  · cases directory with
    | some directory => rfl
    | none =>
      simp only [Draft.filled, Draft.lettered, Option.map_none, Option.getD_none, hspelled,
        Text.lettered_directory]

/-- **Caches stay in the output directory**, for a source and an output of any bytes. The name of a
cache is one normal component, which the path of the cache has behind the components of the output.
An output that is not given has the components of the source but for the last, or is `.`. For outputs
and extensions that are the same, the paths of two caches are the same exactly if the stems of their
sources look the same as texts; which stems in UTF-8 do exactly if they are the same. Where the paths
are texts, they are the paths that the compile takes, and `Draft.Contained` holds of them. -/
theorem Draft.cachePath_contained {source : Bytes} {output : Option Bytes}
    (hd : (d.lettered source output).resolve = .ok o) :
    Path.IsNormal (cacheName source o.extension) ∧
    Path.components (o.letteredCachePath source) =
      Path.components o.output ++ [.name (cacheName source o.extension).lettered] ∧
    (output = none →
      Path.components o.output =
        (if (Path.components source.letters).dropLast = [] then [.here]
          else (Path.components source.letters).dropLast)) ∧
    (∀ d' source' output' o', (Draft.lettered d' source' output').resolve = .ok o' →
      o'.extension = o.extension →
        (Path.components o'.output = Path.components o.output →
          (Path.components (o'.letteredCachePath source') =
              Path.components (o.letteredCachePath source) ↔
            Utf8.decodeLossy (sourceStem source') = Utf8.decodeLossy (sourceStem source))) ∧
        (o'.output = o.output →
          (o'.letteredCachePath source' = o.letteredCachePath source ↔
            Utf8.decodeLossy (sourceStem source') = Utf8.decodeLossy (sourceStem source))) ∧
        (Utf8.WellFormed (sourceStem source) → Utf8.WellFormed (sourceStem source') →
          (Utf8.decodeLossy (sourceStem source') = Utf8.decodeLossy (sourceStem source) ↔
            sourceStem source' = sourceStem source))) ∧
    ∀ file directory, source = Utf8.encode file → output = directory.map Utf8.encode →
      ∃ t, Draft.resolve { d with filename := file, output := directory } = .ok t ∧
        t.output.lettered = o.output ∧ t.compiledName = cacheName source o.extension ∧
        t.cachePath.lettered = o.letteredCachePath source ∧
        Draft.Contained { d with filename := file, output := directory } t := by
  refine ⟨Draft.isNormal_cacheName hd, Draft.components_letteredCachePath hd, ?_, ?_, ?_⟩
  · intro hnone
    have hfilename : o.filename = source.letters := by
      obtain ⟨-, rfl⟩ := Draft.resolve_eq_ok_iff.1 hd
      rfl
    rw [Draft.output_of_none hd (by rw [Draft.lettered, hnone]; rfl),
      Path.components_directory (Draft.names_ne_nil hd), hfilename]
  · intro d' source' output' o' hd' hextension
    refine ⟨Draft.components_letteredCachePath_eq_iff hd hd' hextension, ?_,
      decodeLossy_sourceStem_eq_iff⟩
    intro houtput
    constructor
    · intro hpath
      exact (Draft.components_letteredCachePath_eq_iff hd hd' hextension (by rw [houtput])).1
        (by rw [hpath])
    · intro hshown
      rw [Options.letteredCachePath, Options.letteredCachePath, houtput, hextension,
        cacheName_eq_iff.2 hshown]
  · rintro file directory rfl rfl
    obtain ⟨t, ht, rfl⟩ := Draft.resolve_of_lettered hd
    have hfilename : t.filename = file := by
      obtain ⟨-, rfl⟩ := Draft.resolve_eq_ok_iff.1 ht
      rfl
    refine ⟨t, ht, rfl, ?_, ?_, Draft.contained ht⟩
    · rw [Options.compiledName, hfilename]
    · rw [← hfilename]
      exact Text.lettered_join t.output t.compiledName

/-- `lib` is a link to the directory of a file whose name begins with a point -/
def linkedLibrary : FileSystem :=
  ⟨[(["p"], .directory), (["p", "lib"], .link "real/dir"), (["p", "real"], .directory),
    (["p", "real", "dir"], .directory), (["p", "real", "dir", ".a..js"], .file [] false none)]⟩

/-- a source behind the link, and an extension that is two points -/
def pointed : Draft := { Draft.empty with filename := "lib/.//.a..js", extension := some ".." }

/-- a source elsewhere with the same stem, for the same directory in another spelling -/
def pointedElsewhere : Draft :=
  { Draft.empty with filename := "/src/.a..mjs", output := some "lib/./", extension := some ".." }

/-- a source whose stem is one byte -/
def oneByteSource (stem : UInt8) : Bytes := stem :: Utf8.encode ".js"

/-- The cache of the source is named `.a...` and goes to what the link leads to. That of the other
source has the same path in another spelling. A stem that is not UTF-8 is shown in the name of its
cache as U+FFFD. -/
theorem Draft.cachePath_contained_pointed :
    (∃ o o', pointed.resolve = .ok o ∧ pointedElsewhere.resolve = .ok o' ∧
      Path.components o.cachePath = [.name "lib", .name ".a..."] ∧
      linkedLibrary.find ["p"] o.output = .ok (["p", "real", "dir"], .directory) ∧
      Path.components o'.cachePath = Path.components o.cachePath ∧ o'.cachePath ≠ o.cachePath) ∧
    ∃ o, (Draft.empty.lettered (oneByteSource 0xFF) none).resolve = .ok o ∧
      Path.components (o.letteredCachePath (oneByteSource 0xFF)) =
        [.here, .name (Text.lettered "\uFFFD.bin")] := by
  constructor
  · have hresolve : (pointed.lettered (Utf8.encode pointed.filename) none).resolve = .ok _ := rfl
    obtain ⟨-, -, -, -, htexts⟩ := Draft.cachePath_contained hresolve
    obtain ⟨o, ho, -, -, -, hcontained⟩ := htexts pointed.filename none rfl rfl
    obtain ⟨houtput, hdirectory⟩ := hcontained.beside rfl
    refine ⟨o, _, ho, rfl, ?_⟩
    cases ho
    refine ⟨?_, ?_, ((hcontained.same pointedElsewhere _ rfl rfl).1 rfl).2 rfl, by decide⟩
    · rw [hcontained.components, houtput]
      rfl
    · obtain ⟨above, name, hroute, -, hfind⟩ :=
        hdirectory linkedLibrary ["p"] ["p", "real", "dir", ".a..js"] _ rfl (by decide)
      have habove : (["p", "real", "dir"] : Route) = above :=
        calc (["p", "real", "dir"] : Route) = (above ++ [name]).dropLast := by rw [← hroute]; rfl
          _ = above := List.dropLast_concat
      rw [habove]
      exact hfind
  · have hresolve : (Draft.empty.lettered (oneByteSource 0xFF) none).resolve = .ok _ := rfl
    obtain ⟨-, hcomponents, hdefault, -, -⟩ := Draft.cachePath_contained hresolve
    refine ⟨_, hresolve, ?_⟩
    rw [hcomponents, hdefault rfl]
    decide +kernel

/-- **Sources can share a cache though their stems differ**: of two stems that are not UTF-8, the same
is shown. -/
theorem Draft.not_cachePath_told :
    ¬∀ (d d' : Draft) (source source' : Bytes) (output output' : Option Bytes) (o o' : Options),
      (d.lettered source output).resolve = .ok o →
      (d'.lettered source' output').resolve = .ok o' →
      o'.output = o.output → o'.extension = o.extension →
        (o'.letteredCachePath source' = o.letteredCachePath source ↔
          sourceStem source' = sourceStem source) := by
  intro htold
  have hresolve : (Draft.empty.lettered (oneByteSource 0xFF) none).resolve = .ok _ := rfl
  have hresolve' : (Draft.empty.lettered (oneByteSource 0xFE) none).resolve = .ok _ := rfl
  have hstems : sourceStem (oneByteSource 0xFE) = sourceStem (oneByteSource 0xFF) :=
    (htold _ _ _ _ _ _ _ _ hresolve hresolve' rfl rfl).1 (by decide +kernel)
  exact absurd hstems (by decide +kernel)

end CodeCache
