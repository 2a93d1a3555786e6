import Ciruela.Daemon.Peers.Beliefs
import Ciruela.Daemon.Server

/-!
# Who is told what

A client that has published an image, or has uploaded to a path, waits for news of it for as
long as its connection is open. From the history of a server alone it is known which news
each connection is owed, and this is what is in its channel: none is left out, none comes
twice, and nobody else is told.
-/

namespace Ciruela

open Foundation

open Remote (SocketAddr)
open Peers (Gossip GossipOp Packet PathSet Peer Choice Sent)
open Proto (Notification)

section Histories

variable {Hash : Type}

/-- A client connects, as the connection with this number. -/
def Opens (id : Nat) (event : ServerEvent Hash) : Prop :=
  (∃ addr, event.op = .connect (.accept addr)) ∧ event.before.connections.made.length = id

/-- The connection is closed. -/
def Closes (id : Nat) (event : ServerEvent Hash) : Prop :=
  ∃ hanging now, event.op = .connect (.drop id hanging now)

/-- A client has connected, and the connection was not closed since. -/
def Open (history : List (ServerEvent Hash)) (id : Nat) : Prop := Since (Opens id) (Closes id) history

/-- An image was declared on the connection. -/
def Publishes (history : List (ServerEvent Hash)) (id : Nat) (image : ImageId) : Prop :=
  ∃ event ∈ history, event.op = .connect (.publish id image)

/-- Something was uploaded to the path on the connection. -/
def Uploads (history : List (ServerEvent Hash)) (id : Nat) (place : List Component) : Prop :=
  ∃ event ∈ history, ∃ path, event.op = .upload id path ∧ path.place = place

/-- After this history the connection is owed the news. -/
def Due (history : List (ServerEvent Hash)) (id : Nat) (news : News) : Prop :=
  Open history id ∧ (Publishes history id news.image ∨
    news.toWatchers = true ∧ Uploads history id news.path.place)

variable [DecidableEq Hash] (env : Metadata.Env) (forObject : PathSet → Hash) (id : Nat)

open Classical in
/-- The notifications that a connection is owed for what comes after a history. -/
noncomputable def owed :
    List (ServerEvent Hash) → List (ServerEvent Hash) → List Notification
  | _, [] => []
  | history, event :: rest =>
      ((event.before.newsOf env forObject event.op).filter fun news => Due history id news).map
        event.before.notice ++ owed (history ++ [event]) rest

variable {env forObject id}

open Classical in

/-- What a step adds to what is owed. -/
theorem owed_append (history front : List (ServerEvent Hash)) (event : ServerEvent Hash) :
    owed env forObject id history (front ++ [event]) = owed env forObject id history front ++
      ((event.before.newsOf env forObject event.op).filter fun news =>
        Due (history ++ front) id news).map event.before.notice := by
  induction front generalizing history with
  | nil => simp [owed]
  | cons first rest ih =>
      rw [List.cons_append, owed, ih, owed, List.append_assoc, List.append_assoc]
      rfl

end Histories

section Mirrors

variable {Hash : Type} {history : List (ServerEvent Hash)} {event : ServerEvent Hash}
  {server : Server Hash}

/-- What a step adds to the uploads of a connection. -/
theorem uploads_append {id : Nat} {place : List Component} :
    Uploads (history ++ [event]) id place ↔
      Uploads history id place ∨ ∃ path, event.op = .upload id path ∧ path.place = place := by
  simp [Uploads, or_and_right, exists_or]

/-- What a step does to a connection. -/
theorem open_append {id : Nat} :
    Open (history ++ [event]) id ↔ Opens id event ∨ Open history id ∧ ¬ Closes id event :=
  since_concat

/-- The connections of clients and their paths are those of the history, and gossip sees the
same ones. -/
structure Mirror (history : List (ServerEvent Hash)) (server : Server Hash) : Prop where
  incoming : ∀ id, id ∈ server.connections.incoming ↔ Open history id
  listed : ∀ id, id ∈ server.connections.incoming ↔
    ∃ connection ∈ server.gossip.around.incoming, connection.1 = id
  watches : ∀ id ∈ server.connections.incoming, ∀ place,
    server.hasWatch id place ↔ Uploads history id place
  made : ∀ id ∈ server.connections.incoming, id < server.connections.made.length
  uploads : ∀ id place, Uploads history id place → id < server.connections.made.length

/-- The tables mirror the history at first. -/
theorem mirror_start (hostname : List Char) (signatures : Tree Metadata.Content)
    (indexes : Tree (List UInt8)) (gossip : Gossip Hash) (alone : gossip.around.incoming = []) :
    Mirror [] (Server.start hostname signatures indexes gossip) where
  incoming id := by simp [Server.start, Remote.Connections.new, Open, not_since_nil]
  listed id := by simp [Server.start, Remote.Connections.new, alone]
  watches id member := by simp [Server.start, Remote.Connections.new] at member
  made id member := by simp [Server.start, Remote.Connections.new] at member
  uploads id place uploads := by simp [Uploads] at uploads

/-- A step that neither opens nor closes connections nor begins an upload. -/
theorem Mirror.quiet (mirror : Mirror history event.before)
    (unconnected : ∀ op, event.op ≠ .connect op) (still : ∀ id path, event.op ≠ .upload id path)
    (connections : event.after.connections = event.before.connections)
    (incoming : event.after.gossip.around.incoming = event.before.gossip.around.incoming) :
    Mirror (history ++ [event]) event.after where
  incoming id := by
    rw [connections, mirror.incoming id, open_append]
    simp [Opens, Closes, unconnected]
  listed id := by
    rw [connections, incoming]
    exact mirror.listed id
  watches id member place := by
    rw [connections] at member
    rw [uploads_append, ← mirror.watches id member place, Server.hasWatch, Server.hasWatch, incoming]
    simp [still]
  made id member := by
    rw [connections] at member ⊢
    exact mirror.made id member
  uploads id place uploads := by
    rw [connections]
    refine mirror.uploads id place ((uploads_append.mp uploads).resolve_right ?_)
    rintro ⟨path, isUpload, _⟩
    exact still id path isUpload

/-- A step on a connection that neither is accepted nor goes away. -/
theorem Mirror.kept {op : Remote.Op} (mirror : Mirror history event.before)
    (isConnect : event.op = .connect op) (unaccepted : ∀ addr, op ≠ .accept addr)
    (undropped : ∀ id hanging now, op ≠ .drop id hanging now)
    (same : event.after.connections.incoming = event.before.connections.incoming)
    (more : event.before.connections.made.length ≤ event.after.connections.made.length)
    (incoming : event.after.gossip.around.incoming = event.before.gossip.around.incoming) :
    Mirror (history ++ [event]) event.after where
  incoming id := by
    rw [same, mirror.incoming id, open_append]
    simp [Opens, Closes, isConnect, unaccepted, undropped]
  listed id := by
    rw [same, incoming]
    exact mirror.listed id
  watches id member place := by
    rw [same] at member
    rw [uploads_append, ← mirror.watches id member place, Server.hasWatch, Server.hasWatch, incoming]
    simp [isConnect]
  made id member := by
    rw [same] at member
    exact (mirror.made id member).trans_le more
  uploads id place uploads := by
    refine (mirror.uploads id place ((uploads_append.mp uploads).resolve_right ?_)).trans_le more
    rintro ⟨path, isUpload, _⟩
    rw [isConnect] at isUpload
    cases isUpload

/-- A client connects. -/
theorem Mirror.accept {addr : SocketAddr} (mirror : Mirror history event.before)
    (isAccept : event.op = .connect (.accept addr))
    (same : event.after.connections.incoming =
      insert event.before.connections.made.length event.before.connections.incoming)
    (more : event.after.connections.made.length = event.before.connections.made.length + 1)
    (incoming : event.after.gossip.around.incoming =
      (event.before.connections.made.length, .empty) :: event.before.gossip.around.incoming) :
    Mirror (history ++ [event]) event.after where
  incoming id := by
    rw [same, Finset.mem_insert, mirror.incoming id, open_append]
    simp [Opens, Closes, isAccept, eq_comm]
  listed id := by
    rw [same, incoming, Finset.mem_insert, mirror.listed id, List.exists_mem_cons_iff, eq_comm]
  watches id member place := by
    have fresh : ¬ Uploads history event.before.connections.made.length place := fun uploads =>
      absurd (mirror.uploads _ place uploads) (lt_irrefl _)
    have watched : event.after.hasWatch id place ↔ event.before.hasWatch id place := by
      simp [Server.hasWatch, incoming, PathSet.Contains, PathSet.empty]
    rw [watched, uploads_append]
    simp only [isAccept, reduceCtorEq, false_and, exists_false, or_false]
    rw [same] at member
    rcases Finset.mem_insert.mp member with rfl | old
    · refine iff_of_false (fun watches => ?_) fresh
      obtain ⟨connection, isIncoming, isNew, _⟩ := watches
      exact absurd (mirror.made _ ((mirror.listed _).mpr ⟨connection, isIncoming, isNew⟩))
        (lt_irrefl _)
    · exact mirror.watches id old place
  made id member := by
    rw [same] at member
    rw [more]
    rcases Finset.mem_insert.mp member with rfl | old
    · exact Nat.lt_succ_self _
    · exact (mirror.made id old).trans (Nat.lt_succ_self _)
  uploads id place uploads := by
    rw [more]
    refine (mirror.uploads id place ((uploads_append.mp uploads).resolve_right ?_)).trans
      (Nat.lt_succ_self _)
    rintro ⟨path, isUpload, _⟩
    rw [isAccept] at isUpload
    cases isUpload

/-- A connection is closed. -/
theorem Mirror.drop {gone : Nat} {hanging : Bool} {now : Nat} (mirror : Mirror history event.before)
    (isDrop : event.op = .connect (.drop gone hanging now))
    (same : event.after.connections.incoming = event.before.connections.incoming.erase gone)
    (more : event.after.connections.made.length = event.before.connections.made.length)
    (incoming : event.after.gossip.around.incoming =
      event.before.gossip.around.incoming.filter fun connection => connection.1 ≠ gone) :
    Mirror (history ++ [event]) event.after where
  incoming id := by
    rw [same, Finset.mem_erase, mirror.incoming id, open_append]
    simp [Opens, Closes, isDrop, and_comm, eq_comm]
  listed id := by
    rw [same, incoming, Finset.mem_erase, mirror.listed id]
    constructor
    · rintro ⟨stays, connection, isIncoming, rfl⟩
      exact ⟨connection, List.mem_filter.mpr ⟨isIncoming, by simpa using stays⟩, rfl⟩
    · rintro ⟨connection, isIncoming, rfl⟩
      obtain ⟨old, stays⟩ := List.mem_filter.mp isIncoming
      exact ⟨by simpa using stays, connection, old, rfl⟩
  watches id member place := by
    rw [same] at member
    obtain ⟨stays, old⟩ := Finset.mem_erase.mp member
    rw [uploads_append, ← mirror.watches id old place]
    simp only [isDrop, reduceCtorEq, false_and, exists_false, or_false]
    constructor
    · rintro ⟨connection, isIncoming, watches⟩
      rw [incoming] at isIncoming
      exact ⟨connection, List.mem_of_mem_filter isIncoming, watches⟩
    · rintro ⟨connection, isIncoming, rfl, contains⟩
      refine ⟨connection, ?_, rfl, contains⟩
      rw [incoming]
      exact List.mem_filter.mpr ⟨isIncoming, by simpa using stays⟩
  made id member := by
    rw [same] at member
    rw [more]
    exact mirror.made id (Finset.mem_of_mem_erase member)
  uploads id place uploads := by
    rw [more]
    refine mirror.uploads id place ((uploads_append.mp uploads).resolve_right ?_)
    rintro ⟨path, isUpload, _⟩
    rw [isDrop] at isUpload
    cases isUpload

/-- A client uploads to a path. -/
theorem Mirror.upload {own : Nat} {path : VPath} (mirror : Mirror history event.before)
    (isUpload : event.op = .upload own path) (there : own < event.before.connections.made.length)
    (connections : event.after.connections = event.before.connections)
    (gossip : event.after.gossip = event.before.gossip.addWatch own path) :
    Mirror (history ++ [event]) event.after where
  incoming id := by
    rw [connections, mirror.incoming id, open_append]
    simp [Opens, Closes, isUpload]
  listed id := by
    rw [connections, mirror.listed id, gossip]
    constructor
    · rintro ⟨connection, isIncoming, rfl⟩
      refine ⟨_, List.mem_map.mpr ⟨connection, isIncoming, rfl⟩, ?_⟩
      split <;> rfl
    · rintro ⟨connection, isIncoming, rfl⟩
      obtain ⟨old, isOld, rfl⟩ := List.mem_map.mp isIncoming
      refine ⟨old, isOld, ?_⟩
      split <;> rfl
  watches id member place := by
    rw [connections] at member
    rw [uploads_append, ← mirror.watches id member place]
    simp only [Server.hasWatch, gossip]
    constructor
    · rintro ⟨connection, isIncoming, rfl, contains⟩
      obtain ⟨old, isOld, rfl⟩ := List.mem_map.mp isIncoming
      split at contains
      · rename_i isOwn
        rw [if_pos isOwn]
        rcases Peers.PathSet.contains_insert.mp contains with new | before
        · exact Or.inr ⟨path, by rw [isUpload, isOwn], new⟩
        · exact Or.inl ⟨old, isOld, rfl, before⟩
      · rename_i isOther
        rw [if_neg isOther]
        exact Or.inl ⟨old, isOld, rfl, contains⟩
    · rintro (⟨connection, isIncoming, rfl, contains⟩ | ⟨other, isOther, rfl⟩)
      · refine ⟨_, List.mem_map.mpr ⟨connection, isIncoming, rfl⟩, ?_⟩
        split
        · exact ⟨rfl, Peers.PathSet.contains_insert.mpr (Or.inr contains)⟩
        · exact ⟨rfl, contains⟩
      · rw [isUpload] at isOther
        obtain ⟨rfl, rfl⟩ := ServerOp.upload.inj isOther
        obtain ⟨connection, isIncoming, rfl⟩ := (mirror.listed own).mp member
        refine ⟨_, List.mem_map.mpr ⟨connection, isIncoming, rfl⟩, ?_⟩
        rw [if_pos rfl]
        exact ⟨rfl, Peers.PathSet.contains_insert.mpr (Or.inl rfl)⟩
  made id member := by
    rw [connections] at member ⊢
    exact mirror.made id member
  uploads id place uploads := by
    rw [connections]
    rcases uploads_append.mp uploads with old | ⟨other, isOther, _⟩
    · exact mirror.uploads id place old
    · rw [isUpload] at isOther
      obtain ⟨rfl, _⟩ := ServerOp.upload.inj isOther
      exact there

/-- Operations of gossip that nobody else hears of leave the connections alone. -/
theorem incoming_of_change {gossip next : Gossip Hash} {op : GossipOp Hash} (free : op.free = true)
    (changes : gossip.change op = some next) : next.around.incoming = gossip.around.incoming := by
  cases op with
  | startDownload path =>
      rw [Gossip.change] at changes
      split at changes
      · obtain rfl := Option.some.inj changes
        rfl
      · cases changes
  | receive addr packet => cases free
  | write choice => cases free
  | notifyComplete path image => cases free
  | connect id => cases free
  | addWatch id path => cases free
  | disconnect id => cases free
  | _ =>
      obtain rfl := Option.some.inj changes
      rfl

/-- What a step of the connections does to those of the clients. -/
theorem Mirror.connect {op : Remote.Op} {connections : Remote.Connections}
    (mirror : Mirror history event.before) (isConnect : event.op = .connect op)
    (moved : event.before.connections.exec op = some connections)
    (same : event.after.connections = connections)
    (followed : event.after.gossip =
      event.before.gossip.follow event.before.connections.made.length op) :
    Mirror (history ++ [event]) event.after := by
  have incoming := congrArg (fun connections => connections.incoming) same
  have seen := congrArg (fun gossip => gossip.around.incoming) followed
  cases op with
  | accept addr =>
      obtain rfl := Option.some.inj moved
      exact mirror.accept isConnect incoming (by simp [same, Remote.Connections.make]) seen
  | ensureConnected addr =>
      rw [Remote.Connections.exec] at moved
      split at moved
      · obtain rfl := Option.some.inj moved
        exact mirror.kept isConnect (by simp) (by simp) incoming (by simp [same]) seen
      · obtain rfl := Option.some.inj moved
        exact mirror.kept isConnect (by simp) (by simp) incoming
          (by simp [same, Remote.Connections.make]) seen
  | handshake id =>
      obtain ⟨connection, there, moved⟩ := Option.bind_eq_some_iff.mp moved
      split at moved
      · obtain rfl := Option.some.inj moved
        exact mirror.kept isConnect (by simp) (by simp) incoming (by simp [same]) seen
      · cases moved
  | publish id image =>
      obtain ⟨connection, there, moved⟩ := Option.bind_eq_some_iff.mp moved
      split at moved
      · obtain rfl := Option.some.inj moved
        exact mirror.kept isConnect (by simp) (by simp) incoming (by simp [same]) seen
      · cases moved
  | drop id hanging now =>
      obtain ⟨connection, there, moved⟩ := Option.bind_eq_some_iff.mp moved
      split at moved
      · obtain rfl := Option.some.inj moved
        exact mirror.drop isConnect incoming (by rw [same]; rfl) seen
      · cases moved

variable [DecidableEq Hash] {env : Metadata.Env} {forObject : PathSet → Hash}

/-- A step keeps the tables a mirror of the history. -/
theorem Mirror.step (mirror : Mirror history event.before)
    (takes : (serverMachine env forObject).Takes event) : Mirror (history ++ [event]) event.after := by
  obtain ⟨before, op, answer, after⟩ := event
  have stepped : ServerStep env forObject before op answer after := serverStep_of_takes takes
  cases stepped with
  | track =>
      exact mirror.quiet (by simp) (by simp) (connections_announceAll _ _)
        (by simp only [gossip_announceAll, gossip_queue])
  | connect moved => exact mirror.connect rfl moved rfl rfl
  | upload there live =>
      exact mirror.upload rfl (List.getElem?_eq_some_iff.mp there).1 rfl rfl
  | heard ran =>
      exact mirror.quiet (by simp) (by simp) (connections_announceAll _ _)
        (Peers.heard_of_readPacket ran).incoming
  | change free changes =>
      exact mirror.quiet (by simp) (by simp) rfl (incoming_of_change free changes)
  | _ => exact mirror.quiet (by simp) (by simp) rfl rfl

/-- What is in the channels after a step. -/
theorem outbox_step (takes : (serverMachine env forObject).Takes event) (id : Nat) :
    event.after.outbox id = event.before.outbox id ++
      ((event.before.newsOf env forObject event.op).filter fun news =>
        event.before.Tells id news).map event.before.notice := by
  obtain ⟨before, op, answer, after⟩ := event
  have stepped : ServerStep env forObject before op answer after := serverStep_of_takes takes
  cases stepped with
  | track => exact outbox_announceAll _ _ _
  | heard ran =>
      rw [Server.newsOf, ran]
      exact outbox_announceAll _ _ _
  | deaf ran => simp [Server.newsOf, ran]
  | _ => simp [Server.newsOf]

variable {start : Server Hash} {trace : List (ServerEvent Hash)} {finish : Server Hash}

/-- The tables mirror the history in every run. -/
theorem mirror_of_steps {hostname : List Char} {signatures : Tree Metadata.Content}
    {indexes : Tree (List UInt8)} {gossip : Gossip Hash} (alone : gossip.around.incoming = [])
    (steps : (serverMachine env forObject).Steps (.start hostname signatures indexes gossip)
      trace finish) : Mirror trace finish :=
  steps.preserves_history Mirror (fun _ => True)
    (fun _ _ takes _ mirror => mirror.step takes) (fun _ _ => trivial)
    (mirror_start hostname signatures indexes gossip alone)

omit [DecidableEq Hash] in
/-- What is published on the connections is published in the history of the server. -/
theorem published_iff {id : Nat} {image : ImageId} :
    Remote.Published (trace.filterMap connectionEvent) id image ↔ Publishes trace id image := by
  constructor
  · rintro ⟨inner, member, isPublish⟩
    obtain ⟨event, isEvent, shown⟩ := List.mem_filterMap.mp member
    refine ⟨event, isEvent, ?_⟩
    unfold connectionEvent at shown
    split at shown
    · rename_i op isConnect
      obtain rfl := Option.some.inj shown
      rw [isConnect, show op = .publish id image from isPublish]
    · cases shown
  · rintro ⟨event, member, isPublish⟩
    have shown : connectionEvent event =
        some ⟨event.before.connections, .publish id image, (), event.after.connections⟩ := by
      rw [connectionEvent, isPublish]
    exact ⟨_, List.mem_filterMap.mpr ⟨event, member, shown⟩, rfl⟩

/-- A connection knows what was published on it. -/
theorem mem_imagesOf_iff {hostname : List Char} {signatures : Tree Metadata.Content}
    {indexes : Tree (List UInt8)} {gossip : Gossip Hash}
    (steps : (serverMachine env forObject).Steps (.start hostname signatures indexes gossip)
      trace finish) {id : Nat} {image : ImageId} :
    image ∈ finish.connections.imagesOf id ↔ Publishes trace id image := by
  have view := steps.view Server.connections connectionEvent fun _ takes => shows_connections takes
  have sound : Remote.Sound (trace.filterMap connectionEvent) finish.connections :=
    view.preserves_history Remote.Sound (fun _ => True)
      (fun _ _ takes _ sound => sound.step takes) (fun _ _ => trivial) Remote.Sound.new
  rw [sound.images id image, published_iff]

/-- A connection is told what is due to it. -/
theorem tells_iff_due {hostname : List Char} {signatures : Tree Metadata.Content}
    {indexes : Tree (List UInt8)} {gossip : Gossip Hash} (alone : gossip.around.incoming = [])
    (steps : (serverMachine env forObject).Steps (.start hostname signatures indexes gossip)
      trace finish) (id : Nat) (news : News) : finish.Tells id news ↔ Due trace id news := by
  have mirror := mirror_of_steps alone steps
  unfold Server.Tells Due
  rw [mem_imagesOf_iff steps, mirror.incoming id]
  refine and_congr_right fun isOpen => or_congr_right (and_congr_right fun _ => ?_)
  exact mirror.watches id ((mirror.incoming id).mpr isOpen) _

end Mirrors

/-- In every run the channel of each connection holds the notifications it is owed, in the order
of what they are about, and nothing else. -/
theorem notices_owed {Hash : Type} [DecidableEq Hash] (env : Metadata.Env)
    (forObject : PathSet → Hash) {hostname : List Char} {signatures : Tree Metadata.Content}
    {indexes : Tree (List UInt8)} {machineId : MachineId} {config : Config} {configHash : Hash}
    {configList : PathSet} {futurePeers : Map SocketAddr (List Char)}
    {trace : List (ServerEvent Hash)} {finish : Server Hash}
    (steps : (serverMachine env forObject).Steps (.start hostname signatures indexes
      (.start machineId config configHash configList futurePeers)) trace finish) (id : Nat) :
    finish.outbox id = owed env forObject id [] trace := by
  induction steps with
  | refl => rfl
  | @step trace event prior valid ih =>
      classical
      rw [outbox_step valid, ih, owed_append, List.nil_append]
      have same : ∀ news ∈ event.before.newsOf env forObject event.op,
          decide (event.before.Tells id news) = decide (Due trace id news) := fun news _ =>
        decide_eq_decide.mpr (tells_iff_due rfl prior id news)
      rw [List.filter_congr same]

namespace Server.Sample

/-- A hash that only counts the paths. -/
def count (set : PathSet) : Nat := set.paths.length

/-- A server at its start. -/
def start (hostname : List Char) (id : MachineId) : Server Nat :=
  .start hostname .empty .empty (.start id (Metadata.Sample.env false).config 0 .empty ∅)

/-- A client connects, waits for an image and uploads it. -/
def uploading : List (ServerOp Nat) :=
  [.connect (.accept ⟨[127, 0, 0, 1], 24783⟩), .upload 0 Metadata.Sample.path] ++
    (Tracking.Sample.uploading 0 Metadata.Io.working).map fun op => .track op [] []

end Server.Sample

/-- A client that uploads an image is told when it is received. -/
theorem notices_owed_uploading :
    let run := (serverMachine (Metadata.Sample.env false) Server.Sample.count).play
      (Server.Sample.start "one".toList [1]) Server.Sample.uploading
    run.2.outbox 0 =
        [.receivedImage ⟨Metadata.Sample.image 1, Metadata.Sample.path, [1], "one".toList, false⟩] ∧
      run.2.outbox 0 = owed (Metadata.Sample.env false) Server.Sample.count 0 [] run.1 := by
  intro run
  exact ⟨by decide, notices_owed _ _ (Machine.Steps.of_play _ _ _) 0⟩

end Ciruela
