import Ciruela.Foundation.Machine
import Ciruela.Foundation.Multimap
import Ciruela.Id

/-!
# Connections and what is published on them

Clients connect to the daemon, and the daemon connects to its peers. Both kinds of
connection are served by one dispatcher, and both have a token that is dropped when the
connection is closed. Whoever has an image publishes it, and the daemon keeps the table of
the connections an image can be had from.
-/

namespace Ciruela

open Foundation

namespace Remote

/-- An address of the network. -/
structure SocketAddr where
  ip : List UInt8
  port : Nat
deriving DecidableEq

/-- An entry of the failure tracker. -/
structure Failure where
  subsequent : Nat
  last : Nat
deriving DecidableEq

/-- `Failures::add_failure`; the counter does not overflow. -/
def addFailure (failures : Map SocketAddr Failure) (addr : SocketAddr) (now : Nat) :
    Map SocketAddr Failure :=
  let before := ((failures.lookup addr).map Failure.subsequent).getD 0
  failures.insert addr ⟨min (before + 1) (2 ^ 32 - 1), now⟩

/-- `Connection`: with whom it is, and which images the client has declared on it. -/
structure Connection where
  addr : SocketAddr
  connected : Bool
  images : List ImageId
deriving DecidableEq

/-- Connections are numbered in the order they are made. -/
structure Connections where
  made : List Connection
  /-- The connections whose token has not been dropped. -/
  live : Finset Nat
  incoming : Finset Nat
  outgoing : Map SocketAddr Nat
  failures : Map SocketAddr Failure
  declaredImages : Multimap ImageId Nat

/-- `Connections::new`. -/
def Connections.new : Connections := ⟨[], ∅, ∅, ∅, ∅, ∅⟩

/-- What happens to the connections of a server. -/
inductive Op where
  /-- A client connects: `Connection::incoming` and `register_connection`. -/
  | accept (addr : SocketAddr)
  | ensureConnected (addr : SocketAddr)
  /-- `connect` has finished its handshake. -/
  | handshake (id : Nat)
  /-- `Dispatcher::frame` gets a `PublishImage`. -/
  | publish (id : Nat) (image : ImageId)
  /-- The token goes away, with or without requests that are not answered. -/
  | drop (id : Nat) (hanging : Bool) (now : Nat)
deriving DecidableEq

namespace Connections

variable (connections : Connections)

/-- Make a connection with a token. -/
def make (addr : SocketAddr) (connected : Bool) : Connections :=
  { connections with
    made := connections.made ++ [⟨addr, connected, []⟩]
    live := insert connections.made.length connections.live }

/-- `Token::drop`. -/
def dropToken (id : Nat) (connection : Connection) (hanging : Bool) (now : Nat) : Connections where
  made := connections.made
  live := connections.live.erase id
  failures :=
    if hanging || !connection.connected then addFailure connections.failures connection.addr now
    else connections.failures
  incoming := connections.incoming.erase id
  declaredImages :=
    if id ∈ connections.incoming then
      connection.images.foldl (fun table image => table.remove image id) connections.declaredImages
    else connections.declaredImages
  outgoing :=
    if connections.outgoing.lookup connection.addr = some id then
      connections.outgoing.erase connection.addr
    else connections.outgoing

/-- One step of the table. -/
def exec : Op → Option Connections
  | .accept addr =>
      some { connections.make addr true with
        incoming := insert connections.made.length connections.incoming }
  | .ensureConnected addr =>
      if addr ∈ connections.outgoing then some connections
      else some { connections.make addr false with
        outgoing := connections.outgoing.insert addr connections.made.length }
  | .handshake id => do
      let connection ← connections.made[id]?
      if id ∈ connections.live ∧ connection.connected = false then
        some { connections with
          made := connections.made.set id { connection with connected := true }
          failures := connections.failures.erase connection.addr }
      else none
  | .publish id image => do
      let connection ← connections.made[id]?
      if id ∈ connections.live ∧ connection.connected = true then
        some { connections with
          made := connections.made.set id
            { connection with images := connection.images.insert image }
          declaredImages := connections.declaredImages.add image id }
      else none
  | .drop id hanging now => do
      let connection ← connections.made[id]?
      if id ∈ connections.live then some (connections.dropToken id connection hanging now) else none

/-- `has_image_source`. -/
def hasImageSource (image : ImageId) : Bool := decide (image ∈ connections.declaredImages)

/-- `get_incoming_connection_for_image` can answer with this connection. -/
def Offers (image : ImageId) (id : Nat) : Prop :=
  ∃ ids, connections.declaredImages.lookup image = some ids ∧ id ∈ ids

/-- The images that were published on a connection, as it knows them. -/
def imagesOf (id : Nat) : List ImageId := ((connections.made[id]?).map Connection.images).getD []

end Connections

/-- Connections open, publish and close in any order. -/
def machine : Machine Connections Op Unit where
  exec connections op := (connections.exec op).map fun next => ((), next)

/-- A step of the table. -/
abbrev Event := Transition Connections Op Unit

/-- The image was published on the connection. -/
def Published (trace : List Event) (id : Nat) (image : ImageId) : Prop :=
  ∃ event ∈ trace, event.op = .publish id image

/-- The table maps each image to the live connections that have published it, and has no
image without one; and so it is never a closed connection that it leads to. -/
structure Exact (trace : List Event) (connections : Connections) : Prop where
  declared : ∀ image ids, connections.declaredImages.lookup image = some ids ↔
    ids.Nonempty ∧ ∀ id, id ∈ ids ↔ id ∈ connections.live ∧ Published trace id image
  sources : ∀ image, connections.hasImageSource image = true ↔
    ∃ id, id ∈ connections.live ∧ Published trace id image
  offers : ∀ image id, connections.Offers image id → id ∈ connections.live

/-- A token that is dropped is one of a client, or nothing was published there. -/
def DropsCleanly (event : Event) : Prop :=
  ∀ id hanging now, event.op = .drop id hanging now →
    id ∈ event.before.incoming ∨ event.before.imagesOf id = []

section Runs

variable {connections after : Connections} {history : List Event} {event : Event}

/-- What a step adds to what was published. -/
theorem published_append {id : Nat} {image : ImageId} :
    Published (history ++ [event]) id image ↔
      Published history id image ∨ event.op = .publish id image := by
  simp [Published, or_and_right, exists_or]

theorem imagesOf_make (addr : SocketAddr) (connected : Bool) (id : Nat) :
    (connections.make addr connected).imagesOf id = connections.imagesOf id := by
  unfold Connections.imagesOf Connections.make
  by_cases old : id < connections.made.length
  · rw [List.getElem?_append_left old]
  · have missing : connections.made[id]? = none := List.getElem?_eq_none (by omega)
    rw [missing, List.getElem?_append_right (by omega)]
    cases id - connections.made.length with
    | zero => rfl
    | succ n => rfl

/-- A connection that is put back has the images it is put back with. -/
theorem imagesOf_set {id : Nat} {old new : Connection} (there : connections.made[id]? = some old)
    (other : Nat) :
    ((((connections.made.set id new)[other]?).map Connection.images).getD []) =
      if other = id then new.images else connections.imagesOf other := by
  obtain ⟨inside, _⟩ := List.getElem?_eq_some_iff.mp there
  by_cases same : other = id
  · subst same
    simp [inside]
  · rw [if_neg same, List.getElem?_set_ne (Ne.symm same)]
    rfl

/-- What holds on every run: a connection knows what was published on it, and no image is
left in the table with no connection. -/
structure Sound (history : List Event) (connections : Connections) : Prop where
  images : ∀ id image, image ∈ connections.imagesOf id ↔ Published history id image
  tight : connections.declaredImages.Tight

/-- The pairs of the table are the right ones. -/
def Accurate (history : List Event) (connections : Connections) : Prop :=
  ∀ image id, connections.declaredImages.Relates image id ↔
    id ∈ connections.live ∧ Published history id image

/-- The tables are sound at first. -/
theorem Sound.new : Sound [] Connections.new where
  images id image := by simp [Connections.imagesOf, Connections.new, Published]
  tight := Multimap.tight_empty

/-- The counts are accurate at first. -/
theorem accurate_new : Accurate [] Connections.new := by
  intro image id
  simp [Connections.new, Multimap.not_relates_empty]

/-- Sound tables are exact when their counts are accurate. -/
theorem Sound.exact_iff (sound : Sound history connections) :
    Exact history connections ↔ Accurate history connections := by
  constructor
  · intro exact image id
    constructor
    · intro related
      refine ⟨exact.offers image id related, ?_⟩
      obtain ⟨ids, found, member⟩ := related
      exact (((exact.declared image ids).mp found).2 id |>.mp member).2
    · intro published
      have known := (exact.sources image).mpr ⟨id, published⟩
      obtain ⟨ids, found⟩ := Finmap.mem_iff.mp (of_decide_eq_true known)
      exact ⟨ids, found, (((exact.declared image ids).mp found).2 id).mpr published⟩
  · intro accurate
    refine ⟨?_, ?_, ?_⟩
    · intro image ids
      rw [sound.tight.lookup_eq_some_iff]
      exact and_congr_right fun _ => forall_congr' fun id => by rw [accurate image id]
    · intro image
      rw [Connections.hasImageSource, decide_eq_true_iff, Map.mem_iff_lookup_ne_none, ne_eq,
        sound.tight.lookup_eq_none_iff]
      simp only [accurate image, not_forall, not_not]
    · intro image id related
      exact ((accurate image id).mp related).1

/-- What an operation can do to the images of the connections and to the table. -/
inductive Effect (before : Connections) : Op → Connections → Prop where
  | quiet {op : Op} {after : Connections} (unpublished : ∀ id image, op ≠ .publish id image)
      (undropped : ∀ id hanging now, op ≠ .drop id hanging now)
      (images : ∀ id, after.imagesOf id = before.imagesOf id)
      (declared : after.declaredImages = before.declaredImages)
      (live : ∀ id, before.imagesOf id ≠ [] → (id ∈ after.live ↔ id ∈ before.live)) :
      Effect before op after
  | published {id : Nat} {image : ImageId} {after : Connections} (alive : id ∈ before.live)
      (images : ∀ other, after.imagesOf other =
        if other = id then (before.imagesOf id).insert image else before.imagesOf other)
      (declared : after.declaredImages = before.declaredImages.add image id)
      (live : after.live = before.live) :
      Effect before (.publish id image) after
  | dropped {id : Nat} {hanging : Bool} {now : Nat} {after : Connections}
      (images : ∀ other, after.imagesOf other = before.imagesOf other)
      (declared : after.declaredImages =
        if id ∈ before.incoming then
          (before.imagesOf id).foldl (fun table image => table.remove image id) before.declaredImages
        else before.declaredImages)
      (live : after.live = before.live.erase id) :
      Effect before (.drop id hanging now) after

/-- A connection that is made is the first with its number. -/
theorem mem_live_make (addr : SocketAddr) (connected : Bool) {id : Nat}
    (known : connections.imagesOf id ≠ []) :
    id ∈ (connections.make addr connected).live ↔ id ∈ connections.live := by
  have old : id ≠ connections.made.length := by
    rintro rfl
    exact known (by simp [Connections.imagesOf])
  simp [Connections.make, old]

/-- What an operation does to the tables. -/
theorem effect_of_exec {op : Op} (moved : connections.exec op = some after) :
    Effect connections op after := by
  cases op with
  | accept addr =>
      obtain rfl := Option.some.inj moved
      exact .quiet (by simp) (by simp) (imagesOf_make addr true) rfl
        fun _ known => mem_live_make addr true known
  | ensureConnected addr =>
      rw [Connections.exec] at moved
      split at moved
      · obtain rfl := Option.some.inj moved
        exact .quiet (by simp) (by simp) (fun _ => rfl) rfl fun _ _ => Iff.rfl
      · obtain rfl := Option.some.inj moved
        exact .quiet (by simp) (by simp) (imagesOf_make addr false) rfl
          fun _ known => mem_live_make addr false known
  | handshake id =>
      obtain ⟨connection, there, moved⟩ := Option.bind_eq_some_iff.mp moved
      split at moved
      · obtain rfl := Option.some.inj moved
        refine .quiet (by simp) (by simp) (fun other => ?_) rfl fun _ _ => Iff.rfl
        refine (imagesOf_set there other).trans ?_
        split
        · rename_i same
          simp [Connections.imagesOf, same, there]
        · rfl
      · cases moved
  | publish id image =>
      obtain ⟨connection, there, moved⟩ := Option.bind_eq_some_iff.mp moved
      split at moved
      · rename_i isOpen
        obtain rfl := Option.some.inj moved
        refine .published isOpen.1 (fun other => ?_) rfl rfl
        refine (imagesOf_set there other).trans ?_
        simp [Connections.imagesOf, there]
      · cases moved
  | drop id hanging now =>
      obtain ⟨connection, there, moved⟩ := Option.bind_eq_some_iff.mp moved
      split at moved
      · obtain rfl := Option.some.inj moved
        have images : connections.imagesOf id = connection.images := by
          simp [Connections.imagesOf, there]
        exact .dropped (fun _ => rfl) (by rw [images]; rfl) rfl
      · cases moved

/-- What a step does to the tables. -/
theorem effect_of_takes (takes : machine.Takes event) : Effect event.before event.op event.after := by
  obtain ⟨next, moved, same⟩ := Option.map_eq_some_iff.mp takes
  obtain rfl : next = event.after := congrArg Prod.snd same
  exact effect_of_exec moved

/-- A step keeps the tables sound. -/
theorem Sound.step (sound : Sound history event.before) (takes : machine.Takes event) :
    Sound (history ++ [event]) event.after := by
  obtain ⟨before, op, answer, after⟩ := event
  obtain ⟨known, tight⟩ := sound
  cases effect_of_takes takes with
  | quiet unpublished _ images declared _ =>
      refine ⟨fun id image => ?_, by rw [declared]; exact tight⟩
      rw [published_append, images id, known id image]
      simp [unpublished id image]
  | @published id image _ _ images declared _ =>
      refine ⟨fun other extra => ?_, by rw [declared]; exact tight.add image id⟩
      rw [published_append, images other, Op.publish.injEq, ← known other extra]
      split
      · rename_i same
        subst same
        rw [List.mem_insert_iff]
        constructor
        · rintro (rfl | old)
          · exact Or.inr ⟨rfl, rfl⟩
          · exact Or.inl old
        · rintro (old | ⟨_, rfl⟩)
          · exact Or.inr old
          · exact Or.inl rfl
      · rename_i different
        simp [Ne.symm different]
  | dropped images declared _ =>
      refine ⟨fun id image => ?_, ?_⟩
      · rw [published_append, images id, known id image]
        simp
      · rw [declared]
        split
        · exact tight.foldl_remove _ _
        · exact tight

/-- A step that drops no token without cleaning up keeps the table right. -/
theorem accurate_step (sound : Sound history event.before) (accurate : Accurate history event.before)
    (takes : machine.Takes event) (cleanly : DropsCleanly event) :
    Accurate (history ++ [event]) event.after := by
  obtain ⟨before, op, answer, after⟩ := event
  intro extra other
  rw [published_append]
  cases effect_of_takes takes with
  | quiet unpublished _ _ declared live =>
      rw [declared, accurate extra other]
      have still := live other
      have known := sound.images other extra
      simp only [unpublished other extra, or_false]
      refine and_congr_left fun isPublished => (still ?_).symm
      exact List.ne_nil_of_mem (known.mpr isPublished)
  | @published id image _ alive _ declared live =>
      rw [declared, Multimap.relates_add, accurate extra other, live, Op.publish.injEq]
      constructor
      · rintro (⟨isLive, old⟩ | ⟨rfl, rfl⟩)
        · exact ⟨isLive, Or.inl old⟩
        · exact ⟨alive, Or.inr ⟨rfl, rfl⟩⟩
      · rintro ⟨isLive, old | ⟨rfl, rfl⟩⟩
        · exact Or.inl ⟨isLive, old⟩
        · exact Or.inr ⟨rfl, rfl⟩
  | @dropped id hanging now _ _ declared live =>
      rw [declared, live, Finset.mem_erase]
      simp only [reduceCtorEq, or_false]
      have known := sound.images other extra
      rcases cleanly id hanging now rfl with client | nothing
      · rw [if_pos client, Multimap.relates_foldl_remove, accurate extra other]
        constructor
        · rintro ⟨⟨isLive, old⟩, kept⟩
          refine ⟨⟨?_, isLive⟩, old⟩
          rintro rfl
          exact kept ⟨known.mpr old, rfl⟩
        · rintro ⟨⟨different, isLive⟩, old⟩
          exact ⟨⟨isLive, old⟩, fun removed => different removed.2⟩
      · have same : ∀ table : Multimap ImageId Nat,
            (if id ∈ before.incoming then
              (before.imagesOf id).foldl (fun table image => table.remove image id) table
            else table) = table := by
          intro table
          rw [show before.imagesOf id = [] from nothing]
          simp
        rw [same, accurate extra other]
        constructor
        · rintro ⟨isLive, old⟩
          refine ⟨⟨?_, isLive⟩, old⟩
          rintro rfl
          have member := known.mpr old
          rw [show before.imagesOf other = [] from nothing] at member
          cases member
        · rintro ⟨⟨_, isLive⟩, old⟩
          exact ⟨isLive, old⟩

/-- After a token was dropped without cleaning up, the table leads to its connection. -/
theorem not_accurate_of_drop (sound : Sound history event.before)
    (accurate : Accurate history event.before) (takes : machine.Takes event)
    (leaves : ¬ DropsCleanly event) : ¬ Accurate (history ++ [event]) event.after := by
  obtain ⟨before, op, answer, after⟩ := event
  unfold DropsCleanly at leaves
  push Not at leaves
  obtain ⟨id, hanging, now, isDrop, foreign, published⟩ := leaves
  obtain rfl : op = .drop id hanging now := isDrop
  obtain ⟨image, member⟩ := List.exists_mem_of_ne_nil _ published
  have alive : id ∈ before.live := by
    obtain ⟨next, moved, _⟩ := Option.map_eq_some_iff.mp takes
    obtain ⟨connection, _, moved⟩ := Option.bind_eq_some_iff.mp moved
    split at moved
    · rename_i alive
      exact alive
    · cases moved
  cases effect_of_takes takes with
  | quiet _ undropped _ _ _ => exact absurd rfl (undropped id hanging now)
  | dropped _ declared live =>
      intro right
      have related : before.declaredImages.Relates image id :=
        (accurate image id).mpr ⟨alive, (sound.images id image).mp member⟩
      rw [if_neg foreign] at declared
      rw [← declared] at related
      have stays := ((right image id).mp related).1
      rw [live] at stays
      exact absurd rfl (Finset.mem_erase.mp stays).1

end Runs

/-- The table of published images is right all along a run exactly when no token is dropped
on a connection to a peer on which something was published. -/
theorem declared_images_exact_iff {trace : List Event} {finish : Connections}
    (steps : machine.Steps Connections.new trace finish) :
    (∀ front event back, trace = front ++ event :: back → Exact (front ++ [event]) event.after) ↔
      ∀ event ∈ trace, DropsCleanly event := by
  induction steps with
  | refl => simp
  | @step trace event prior takes ih =>
      have sound : Sound trace event.before :=
        prior.preserves_history Sound (fun _ => True)
          (fun _ _ takes _ sound => sound.step takes) (by simp) Sound.new
      have accurate (cleanly : ∀ event ∈ trace, DropsCleanly event) : Accurate trace event.before := by
        have both : Sound trace event.before ∧ Accurate trace event.before :=
          prior.preserves_history (fun history connections =>
              Sound history connections ∧ Accurate history connections) DropsCleanly
            (fun _ _ takes cleanly both =>
              ⟨both.1.step takes, accurate_step both.1 both.2 takes cleanly⟩)
            cleanly ⟨Sound.new, accurate_new⟩
        exact both.2
      have last : Exact (trace ++ [event]) event.after ↔ Accurate (trace ++ [event]) event.after :=
        (sound.step takes).exact_iff
      constructor
      · intro exact
        have earlier := ih.mp fun front other back split =>
          exact front other (back ++ [event]) (by simp [split])
        intro other member
        rcases List.mem_append.mp member with old | new
        · exact earlier other old
        · obtain rfl := List.mem_singleton.mp new
          by_contra leaves
          exact not_accurate_of_drop sound (accurate earlier) takes leaves
            (last.mp (exact trace other [] rfl))
      · intro cleanly front other back split
        have earlier : ∀ event ∈ trace, DropsCleanly event :=
          fun other member => cleanly other (List.mem_append_left _ member)
        induction back using List.reverseRecOn with
        | nil =>
            obtain ⟨rfl, same⟩ := List.append_inj' split rfl
            obtain rfl := List.singleton_inj.mp same
            exact last.mpr (accurate_step sound (accurate earlier) takes (cleanly event (by simp)))
        | append_singleton back final _ =>
            rw [← List.cons_append, ← List.append_assoc] at split
            obtain ⟨whole, _⟩ := List.append_inj' split rfl
            exact ih.mpr earlier front other back whole

namespace Sample

/-- The address of the client. -/
def addr : SocketAddr := ⟨[127, 0, 0, 1], 24783⟩

/-- The image that the client declares. -/
def image : ImageId := ⟨[1]⟩

/-- A client connects, publishes an image and goes away. -/
def client : List Op := [.accept addr, .publish 0 image, .drop 0 false 5]

/-- The daemon connects to a peer; the peer publishes an image and goes away. -/
def peer : List Op := [.ensureConnected addr, .handshake 0, .publish 0 image, .drop 0 false 5]

end Sample

/-- The token of a client is dropped with its images. -/
theorem declared_images_exact_client :
    let run := machine.play Connections.new Sample.client
    run.1.length = 3 ∧ ∀ front event back, run.1 = front ++ event :: back →
      Exact (front ++ [event]) event.after := by
  intro run
  have whole : run.1.length = 3 := by decide
  refine ⟨whole, (declared_images_exact_iff (Machine.Steps.of_play _ _ _)).mpr ?_⟩
  have clients : ∀ event ∈ run.1, event.op = .drop 0 false 5 → 0 ∈ event.before.incoming := by decide
  intro event member id hanging now isDrop
  have isOp := Machine.Steps.op_mem_of_play member
  rw [isDrop] at isOp
  simp only [Sample.client, List.mem_cons, reduceCtorEq, Op.drop.injEq, List.not_mem_nil, false_or,
    or_false] at isOp
  obtain ⟨rfl, rfl, rfl⟩ := isOp
  exact Or.inl (clients event member isDrop)

/-- The peer is gone, and the image is still to be had from it. -/
theorem closed_connection_offered :
    let run := machine.play Connections.new Sample.peer
    run.1.length = 4 ∧ ¬ Exact run.1 run.2 := by
  intro run
  have whole : run.1.length = 4 := by decide
  refine ⟨whole, fun exact => ?_⟩
  have found : run.2.declaredImages.lookup Sample.image = some {0} := by decide
  have closed : 0 ∉ run.2.live := by decide
  exact closed (exact.offers Sample.image 0 ⟨{0}, found, Finset.mem_singleton_self 0⟩)

end Remote

end Ciruela
