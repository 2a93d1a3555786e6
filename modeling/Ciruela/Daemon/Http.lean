import Ciruela.Daemon.Disk
import Ciruela.Daemon.Metadata.Scan

/-!
# The HTTP interface

The routes of the web interface, and what a listing of a directory opens. The path
of a listing comes straight from the request, through `VPath::try_from`.
-/

namespace Ciruela

open Foundation

namespace Http

/-- What the status page of the cluster can be asked for. -/
inductive ClusterRoute where
  | downloading
  | complete
  | deleted
  | byDir
  | configs
  | watching
deriving DecidableEq

/-- `Route`: what a request is answered by. -/
inductive Route where
  | notFound
  | websocket
  | status
  | downloading
  | baseDirs
  | configs
  | deleted
  | watching
  | watched
  | peers
  | listDir (path : VPath)
  | cluster (route : ClusterRoute)
deriving DecidableEq

/-- The path under which directories are listed. -/
def listDirRoute : List Char := "/list-dir".toList

/-- `Route::parse`, where `upgrade` says that the request asks for a websocket. -/
def Route.parse (path : List Char) (upgrade : Bool) : Route :=
  if path = "/".toList then if upgrade then .websocket else .notFound
  else if path = "/status/".toList then .status
  else if path = "/downloading/".toList then .downloading
  else if path = "/base-dirs/".toList then .baseDirs
  else if path = "/configs/".toList then .configs
  else if path = "/deleted/".toList then .deleted
  else if path = "/watching/".toList then .watching
  else if path = "/watched/".toList then .watched
  else if path = "/peers/".toList then .peers
  else if startsWith path "/list-dir/".toList then
    match VPath.tryFrom (Path.ofText (path.drop listDirRoute.length)) with
    | some vpath => .listDir vpath
    | none => .notFound
  else if startsWith path "/cluster/".toList then
    if path = "/cluster/downloading/".toList then .cluster .downloading
    else if path = "/cluster/complete/".toList then .cluster .complete
    else if path = "/cluster/deleted/".toList then .cluster .deleted
    else if path = "/cluster/dirs/".toList then .cluster .byDir
    else if path = "/cluster/configs/".toList then .cluster .configs
    else if path = "/cluster/watching/".toList then .cluster .watching
    else .notFound
  else .notFound

/-- `Dir::open_vpath` from the directory of the signatures: the key and then the
components of the suffix. -/
def openVpath (fs : Disk.FileSystem) (root : List FileName) (vpath : VPath) :
    Disk.Calls (List FileName) :=
  Disk.openComponents fs root
    (vpath.place.get ⟨1, vpath.two_le_length⟩ :: vpath.suffix.components)

/-- What `Meta::scan_dir` opens for a listing, where the system lists the files of
a directory as `names`: the directory and then each of its state files. -/
def listDir (fs : Disk.FileSystem) (root : List FileName)
    (names : List FileName → List FileName) (vpath : VPath) : List Disk.Opening :=
  let opened := openVpath fs root vpath
  match opened.2 with
  | .error _ => opened.1
  | .ok location =>
      opened.1 ++ (Metadata.listFiles (names location) Metadata.stateEnding).map
        fun name => ⟨location, .normal name⟩

end Http

end Ciruela
