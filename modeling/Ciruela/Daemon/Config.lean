import Ciruela.Foundation.Text
import Ciruela.Foundation.Tree
import Ciruela.VirtualPath

/-!
# Daemon configuration

A configured directory carries the bounds its validator enforces, so that no
configuration outside them can be built.
-/

namespace Ciruela

open Foundation

/-- A length of time as the library keeps it. -/
structure Duration where
  seconds : Nat
  nanoseconds : Nat
deriving DecidableEq

/-- `Directory`: a configured directory, whose depth is checked when its file is read. -/
structure Directory where
  /-- Where the images are put, as names from the root of the file system. -/
  directory : List FileName
  appendOnly : Bool
  numLevels : Nat
  uploadKeys : List (List Char)
  autoClean : Bool
  keepListFile : Option Path
  keepMinDirectories : Nat
  keepMaxDirectories : Nat
  keepRecent : Duration
  one_le_numLevels : 1 ≤ numLevels
  numLevels_le : numLevels ≤ 16
  one_le_keepMin : 1 ≤ keepMinDirectories
  one_le_keepMax : 1 ≤ keepMaxDirectories
deriving DecidableEq

/-- `Config`: the directories by the key of their paths. -/
structure Config where
  /-- The database directory, as names from the root of the file system. -/
  dbDir : List FileName
  dirs : Map (List Char) Directory

/-- `read_dirs`, where the directory of the configuration holds these files. Hidden ones are not
handed out by `ScanDir::files`. -/
def readDirs {Errors : Type} (parseConfig : FileName → Except Errors Directory)
    (files : List FileName) : Except Errors (Map (List Char) Directory) :=
  (files.filter fun fname =>
    !startsWith fname.text ".".toList && endsWith fname.text ".yaml".toList).foldlM
    (fun dirs fname => do
      let config ← parseConfig fname
      return dirs.insert (dropEnd fname.text 5) config) ∅

/-- A path whose key is configured and that has the configured depth. -/
def Config.isValidDestination (config : Config) (vpath : VPath) : Bool :=
  match config.dirs.lookup vpath.key with
  | some directory => directory.numLevels == vpath.level
  | none => false

end Ciruela
