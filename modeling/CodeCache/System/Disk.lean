/-
Disks that do not take everything they are given.

Opening a file to write it creates it or takes its content away, and only then the content goes to the
disk. So a write that fails behind the open leaves a file with a beginning of the content, perhaps an
empty one, and not the file of before. In the same way a chain of directories can come to a stop when
some of them are there already.

A disk is what becomes of these operations, for every machine and every argument. On a sound disk they
fail for what the path leads to and for nothing else; this is the disk that programs are run on, and
the others are there to say what a failure leaves behind.
-/
import CodeCache.System.Machine

namespace CodeCache

/-- what becomes of a write -/
inductive Transfer where
  /-- all of the content is in the file -/
  | complete
  /-- the file is not opened -/
  | refused (cause : OsError)
  /-- the file is opened, and no more than this many bytes of the content come to be in it -/
  | brokenOff (kept : Nat) (cause : OsError)
deriving DecidableEq, Repr

/-- what becomes of a directory that is to be created with the missing ones above it -/
inductive Founding where
  | complete
  /-- it comes to an end below the ancestor of this number, the directory itself being number 0 -/
  | brokenOff (ancestor : Nat) (cause : OsError)
deriving DecidableEq, Repr

structure Disk where
  transfer : Machine → Text → Bytes → Transfer
  founding : Machine → Text → Founding

namespace Disk

/-- a disk that takes everything -/
def sound : Disk := ⟨fun _ _ _ => .complete, fun _ _ => .complete⟩

/-- the machine after creating or replacing a file; a write that is broken off is one of a beginning
that is told as a failure -/
def write (disk : Disk) (m : Machine) (p : Text) (content : Bytes) :
    Except OsError Unit × Machine :=
  match disk.transfer m p content with
  | .complete => m.write p content
  | .refused cause => (.error cause, m)
  | .brokenOff kept cause =>
    match m.write p (content.take kept) with
    | (.ok (), m) => (.error cause, m)
    | (.error e, m) => (.error e, m)

/-- the machine after creating a directory and the missing ones above it -/
def makeDirectories (disk : Disk) (m : Machine) (p : Text) : Except OsError Unit × Machine :=
  match disk.founding m p with
  | .complete => m.makeDirectories p
  | .brokenOff ancestor cause =>
    (.error cause,
      m.withFiles (m.files.makeChain m.directory ((Path.ancestors p).drop ancestor)).2)

end Disk

end CodeCache
