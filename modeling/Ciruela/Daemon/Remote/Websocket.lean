import Ciruela.Daemon.Tracking.Rpc

/-!
# Requests over a websocket

The dispatcher hands a request to its handler, and the handler answers it, unless
it panics. A virtual path from the wire has only names, but it may be a key with no
names below it; an image id may be empty. Which requests are answered is decided by
that, and by the keep list where the state of a directory is asked for.
-/

namespace Ciruela

open Foundation

namespace Websocket

open Metadata (Env Io KeyFiles Meta)
open Tracking (Reply Effect Recorded blockHint)

/-- A connection, as far as a request changes it. -/
structure Connection where
  watches : Finset (List Component)
deriving DecidableEq

/-- What the closures of a request meet: the metadata and the failing calls, again
for the second closure where there is one, and what the disk and the clock say. -/
structure Around where
  peers : Peers
  io : Io
  keys : KeyFiles
  store : Meta
  laterIo : Io
  later : Meta
  fs : Disk.FileSystem
  names : List FileName
  keepList : Disk.KeepListFile
  now : Nat

/-- An answer with the number of the request. -/
structure Sent where
  requestId : Nat
  reply : Reply

/-- The connection hears of the path from now on. -/
def Connection.addWatch (connection : Connection) (path : VPath) : Connection :=
  ⟨insert path.place connection.watches⟩

/-- `Dispatcher::frame` on a request. -/
def frame (env : Env) (around : Around) (connection : Connection) (requestId : Nat) :
    Request → Run (Connection × Sent × List Effect)
  | .appendDir params => do
      let (reply, effects) ←
        Tracking.appendDir env around.peers around.io around.keys params around.store
      return (connection.addWatch params.path, ⟨requestId, reply⟩, effects)
  | .replaceDir params => do
      let (reply, effects) ←
        Tracking.replaceDir env around.peers around.io around.keys params around.store
      return (connection.addWatch params.path, ⟨requestId, reply⟩, effects)
  | .getIndex params => do
      let reply ← Tracking.getIndex around.io params around.store
      return (connection, ⟨requestId, reply⟩, [])
  | .getIndexAt params => do
      let reply ← Tracking.getIndexAt around.peers around.io around.laterIo params around.store
        around.later
      return (connection, ⟨requestId, reply⟩, [])
  | .getBlock params => do
      let reply ← Tracking.getBlock env.config around.fs params around.store
      return (connection, ⟨requestId, reply⟩, [])
  | .getBaseDir params => do
      let reply ← Tracking.getBaseDir env.config around.io around.now around.names around.keepList
        params around.store
      return (connection, ⟨requestId, reply⟩, [])

/-- The virtual paths of a request. -/
def paths : Request → List VPath
  | .appendDir params => [params.path]
  | .replaceDir params => [params.path]
  | .getIndex _ => []
  | .getIndexAt params => [params.path]
  | .getBlock params => (params.hint.map fun hint => hint.1).toList
  | .getBaseDir params => [params.path]

/-- The request can be read from a frame: its virtual paths pass `check_path`. -/
def Accepted (request : Request) : Prop := ∀ path ∈ paths request, VPath.checkPath path.path = true

instance (request : Request) : Decidable (Accepted request) :=
  inferInstanceAs (Decidable (∀ path ∈ paths request, _))

/-- The requests that are answered. An upload and a request for an index need a name
below the key; an index needs an id with digits; a block needs a name below a key
that is configured; and the state of a directory needs a keep list without names
further below and, where images are cleaned up, a time to keep them that fits. -/
def Answerable (env : Env) (around : Around) : Request → Prop
  | .appendDir params => 1 ≤ params.path.level
  | .replaceDir params => 1 ≤ params.path.level
  | .getIndex params => params.id.bytes ≠ [] ∨ around.io.fails .indexes = true
  | .getIndexAt params =>
      1 ≤ params.path.level ∧ ∀ image, Recorded around.io params.path around.store image →
        image.bytes ≠ [] ∨ around.laterIo.fails .indexes = true
  | .getBlock params =>
      ∀ hint, blockHint params = .ok hint →
        ∀ directory, env.config.dirs.lookup hint.1.key = some directory →
          around.fs.opensBase directory.directory = true → 1 ≤ hint.1.level
  | .getBaseDir params =>
      ∀ directory, env.config.dirs.lookup params.path.key = some directory →
        ∀ keepList, Disk.readKeepList directory around.keepList = .ok keepList →
          ¬ around.store.ScanFails around.io params.path →
            (directory.autoClean = true →
              (around.store.imagesAt around.io params.path around.names).card ≤
                  directory.keepMinDirectories ∨
                directory.keepRecent.seconds < 2 ^ 63) ∧
            (params.path.level + 2 ≤ directory.numLevels →
              ∀ path ∈ keepList, ¬ params.path.suffix.components <+: path.components)

/-- The request is answered under its number. -/
def Answered (env : Env) (around : Around) (connection : Connection) (requestId : Nat)
    (request : Request) : Prop :=
  ∃ connection' reply effects,
    frame env around connection requestId request = .ok (connection', ⟨requestId, reply⟩, effects)

/-- A request whose handler returns is answered. -/
theorem answered_of_bind {Value : Type} {handler : Run Value} {connection : Connection}
    {requestId : Nat} {reply : Value → Reply} {effects : Value → List Effect} :
    (∃ connection' answer started,
        (do
          let value ← handler
          return (connection, (⟨requestId, reply value⟩ : Sent), effects value) :
          Run (Connection × Sent × List Effect)) =
          .ok (connection', ⟨requestId, answer⟩, started)) ↔ handler.Returns := by
  constructor
  · rintro ⟨_, _, _, answered⟩
    obtain ⟨value, ran, _⟩ := Run.bind_eq_ok_iff.mp answered
    exact ⟨value, ran⟩
  · rintro ⟨value, ran⟩
    exact ⟨connection, reply value, effects value, by rw [ran]; rfl⟩

/-- A request from the wire is answered exactly when it is answerable. -/
theorem request_answered_iff (env : Env) (around : Around) (connection : Connection)
    (requestId : Nat) {request : Request} (accepted : Accepted request) :
    Answered env around connection requestId request ↔ Answerable env around request := by
  unfold Answered
  cases request with
  | appendDir params =>
      rw [Answerable, ← Tracking.returns_appendDir env around.peers around.io around.keys
        around.store (accepted params.path (by simp [paths]))]
      exact answered_of_bind
  | replaceDir params =>
      rw [Answerable, ← Tracking.returns_replaceDir env around.peers around.io around.keys
        around.store (accepted params.path (by simp [paths]))]
      exact answered_of_bind
  | getIndex params =>
      rw [Answerable, ← Tracking.returns_getIndex]
      exact answered_of_bind
  | getIndexAt params =>
      rw [Answerable, ← Tracking.returns_getIndexAt (accepted params.path (by simp [paths]))]
      exact answered_of_bind
  | getBlock params =>
      rw [Answerable, ← Tracking.returns_getBlock]
      · exact answered_of_bind
      · intro vpath path offset hinted
        exact accepted vpath (by simp [paths, hinted])
  | getBaseDir params =>
      refine answered_of_bind.trans (Tracking.returns_getBaseDir.trans ?_)
      exact forall_congr' fun directory => forall_congr' fun _ => BaseDir.returns_scan

/-- A daemon with nothing in it. -/
def Sample.around : Around where
  peers := ⟨∅, ∅⟩
  io := Io.working
  keys := Metadata.Sample.keys
  store := Meta.new .empty .empty
  laterIo := Io.working
  later := Meta.new .empty .empty
  fs := ⟨fun _ => true, fun _ => true, fun _ _ => none⟩
  names := []
  keepList := .notFound
  now := 0

/-- An upload to `/k/a` is answered. -/
theorem request_answered_below_key :
    Answered (Metadata.Sample.env true) Sample.around ⟨∅⟩ 7
      (.appendDir ⟨Metadata.Sample.path, Metadata.Sample.image 1, 5, []⟩) :=
  (request_answered_iff _ _ _ _ (by decide)).mpr (show 1 ≤ Metadata.Sample.path.level by decide)

/-- An upload to `/k` is not. -/
theorem request_panics_at_key :
    ¬ ∀ env around connection requestId request, Accepted request →
      Answered env around connection requestId request := by
  intro all
  obtain ⟨connection, reply, effects, answered⟩ := all (Metadata.Sample.env true) Sample.around ⟨∅⟩ 7
    (.appendDir ⟨Metadata.Sample.base, Metadata.Sample.image 1, 5, []⟩) (by decide)
  have panics : ¬ (frame (Metadata.Sample.env true) Sample.around ⟨∅⟩ 7
      (.appendDir ⟨Metadata.Sample.base, Metadata.Sample.image 1, 5, []⟩)).Returns := by
    decide
  exact panics ⟨_, answered⟩

end Websocket

end Ciruela
