import Ciruela.Cluster.SetLinks

/-!
# Uploads over the connections

An upload with room for a connection is attached to every connection it can get. It counts
the servers that report an image at its path, whatever image that is.
-/

namespace Ciruela.Cluster

open Foundation Proto
open Remote (SocketAddr)

/-- Where the uploads come from that there are after a step. -/
inductive Comes (env : Env) (set : ConnectionSet) (op : Op) : Upload → Prop where
  | kept {up : Upload} (member : up ∈ set.uploads) : Comes env set op up
  | started {new : NewUpload} : Comes env set op (.start env.config set.now new)
  | received {old : Upload} {addr : SocketAddr} {img : ReceivedImage}
      (isRead : set.reads op = some (.notification addr (.receivedImage img)))
      (member : old ∈ set.uploads) : Comes env set op (old.receivedImage addr img)
  | aborted {old : Upload} {addr : SocketAddr} {img : AbortedImage} (member : old ∈ set.uploads) :
      Comes env set op (old.abortedImage addr img)
  | disconnected {old : Upload} {addr : SocketAddr} (member : old ∈ set.uploads) :
      Comes env set op (old.disconnect addr)
  | woken {old : Upload} {order : List SocketAddr} {sent : List Sent}
      (isWakeup : op = .wakeupUploads order) (member : old ∈ set.uploads) :
      Comes env set op (old.wakeup env.config (set.links order) sent).2
  | polled {old : Upload} {failures : Map SocketAddr Remote.Failure}
      {answers : List (SocketAddr × Channel Ack)} (member : old ∈ set.uploads) :
      Comes env set op (old.poll env set.initialAddr set.now failures answers).2.1

section Comes

variable {env : Env} {set next : ConnectionSet}

/-- Connecting leaves the uploads as they are. -/
theorem Connects.uploads_eq (connects : Connects set next) : next.uploads = set.uploads := by
  induction connects with
  | refl => rfl
  | lookUp _ _ ih => exact ih
  | connect _ _ ih =>
      unfold ConnectionSet.connect
      split
      · exact ih
      · exact ih

theorem ConnectionSet.uploads_pollPending (set : ConnectionSet) (config : Config)
    (order : List SocketAddr) (names : List (Name × Lookup)) :
    (set.pollPending config order names).uploads = set.uploads := by
  have settled : (order.foldl ConnectionSet.settle set).uploads = set.uploads := by
    refine List.foldlRecOn (motive := fun after : ConnectionSet => after.uploads = set.uploads)
      order _ rfl ?_
    intro after same addr _
    rw [← same]
    unfold ConnectionSet.settle
    split
    · rfl
    · split <;> rfl
  refine List.foldlRecOn (motive := fun after : ConnectionSet => after.uploads = set.uploads)
    names _ settled ?_
  intro after same answer _
  rw [← same]
  unfold ConnectionSet.resolve
  split <;> rfl

/-- Where the uploads come from after a message. -/
theorem comes_of_handle {message : Message} {rest : List Message}
    (isRead : set.reads .readMessage = some message)
    (handled : { set with chan := rest }.handle env.config message = .ok next) {up : Upload}
    (member : up ∈ next.uploads) : Comes env set .readMessage up := by
  cases message with
  | newUpload new =>
      obtain rfl := Except.ok.inj handled
      rcases List.mem_append.mp member with old | new
      · exact .kept old
      · obtain rfl := List.mem_singleton.mp new
        exact .started
  | notification addr note =>
      cases note with
      | publishImage data =>
          obtain rfl := Except.ok.inj handled
          exact .kept member
      | receivedImage img =>
          obtain rfl := Except.ok.inj handled
          obtain ⟨old, isOld, rfl⟩ := List.mem_map.mp member
          exact .received isRead isOld
      | abortedImage img =>
          obtain rfl := Except.ok.inj handled
          obtain ⟨old, isOld, rfl⟩ := List.mem_map.mp member
          exact .aborted isOld
  | closed addr conn =>
      simp only [ConnectionSet.handle] at handled
      split at handled
      · obtain rfl := Except.ok.inj handled
        obtain ⟨old, isOld, rfl⟩ := List.mem_map.mp member
        exact .disconnected isOld
      · cases handled
  | _ =>
      obtain rfl := Except.ok.inj handled
      exact .kept member

/-- Where the uploads come from after a step. -/
theorem comes_of_step {op : Op} {answer : Run (List Resolution)}
    (step : SetStep env set op answer next) {up : Upload} (member : up ∈ next.uploads) :
    Comes env set op up := by
  cases step with
  | read reading isNext handled =>
      have isRead := ConnectionSet.reads_eq_some.mpr ⟨rfl, reading, _, isNext⟩
      exact comes_of_handle isRead handled member
  | pollConnect _ connected =>
      have same := (ConnectionSet.connects_pollConnect connected).uploads_eq
      exact .kept (same ▸ member)
  | pollPending =>
      have same := ConnectionSet.uploads_pollPending set env.config
      exact .kept (same _ _ ▸ member)
  | wakeupUploads _ _ visited =>
      obtain ⟨old, isOld, sent, _, woken⟩ := Run.exists_of_mem_visit visited member
      have same : _ = up := congrArg Prod.snd (Except.ok.inj woken)
      exact same ▸ .woken rfl isOld
  | pollUploads _ _ _ visited =>
      obtain ⟨item, isItem, isUp⟩ := List.mem_filterMap.mp member
      split at isUp
      · cases isUp
      · obtain rfl := Option.some.inj isUp
        obtain ⟨⟨old, answers⟩, isOld, failures, _, polled⟩ :=
          Run.exists_of_mem_visit visited isItem
        have same := congrArg (fun result => result.2.1) (Except.ok.inj polled)
        exact same ▸ .polled (List.of_mem_zip isOld).1
  | _ => exact .kept member

end Comes

section Recorded

variable {env : Env} {up old : Upload}

/-- The book of an upload is what some reports leave. -/
def Upload.Recorded (up : Upload) : Prop :=
  ∃ reports, up.stats = Stats.after up.upload.path up.weak reports

/-- One report more is recorded last. -/
theorem Stats.after_snoc (path : VPath) (weak : Bool) (reports : List Report) (report : Report) :
    Stats.after path weak (reports ++ [report]) = (Stats.after path weak reports).record report := by
  simp [Stats.after, Stats.recordAll]

/-- One more report. -/
theorem Upload.Recorded.record (recorded : old.Recorded) (upload : up.upload = old.upload)
    (weak : up.weak = old.weak) (report : Report) (stats : up.stats = old.stats.record report) :
    up.Recorded := by
  obtain ⟨reports, isBook⟩ := recorded
  refine ⟨reports ++ [report], ?_⟩
  rw [Stats.after_snoc, stats, isBook, upload, weak]

theorem Upload.Recorded.receivedImage (recorded : old.Recorded) (addr : SocketAddr)
    (img : ReceivedImage) : (old.receivedImage addr img).Recorded := by
  unfold Upload.receivedImage
  split
  · exact recorded.record rfl rfl (.received addr img) rfl
  · exact recorded

theorem Upload.Recorded.abortedImage (recorded : old.Recorded) (addr : SocketAddr)
    (img : AbortedImage) : (old.abortedImage addr img).Recorded := by
  unfold Upload.abortedImage
  split
  · exact recorded.record rfl rfl (.aborted addr img) rfl
  · exact recorded

theorem Upload.Recorded.attach {state : List Sent × Upload} (recorded : state.2.Recorded)
    (link : SocketAddr × Nat) : (Upload.attach state link).2.Recorded := by
  obtain ⟨sent, up⟩ := state
  by_cases wants : up.Wants link.1
  · simp only [Upload.attach, wants, if_true]
    exact recorded
  · simp only [Upload.attach, wants, if_false]
    exact recorded

theorem Upload.Recorded.wakeup (recorded : old.Recorded) (config : Config)
    (links : List (SocketAddr × Nat)) (sent : List Sent) :
    (old.wakeup config links sent).2.Recorded := by
  unfold Upload.wakeup
  split
  · exact List.foldlRecOn (motive := fun state : _ × Upload => state.2.Recorded) links _ recorded
      fun state holds link _ => holds.attach link
  · exact recorded

theorem Upload.Recorded.pollFuture {state : Map SocketAddr Remote.Failure × Upload}
    (recorded : state.2.Recorded) (now : Nat) (answer : SocketAddr × Channel Ack) :
    (Upload.pollFuture env now state answer).2.Recorded := by
  obtain ⟨addr, channel⟩ := answer
  cases channel with
  | empty => exact recorded
  | value resp =>
      exact recorded.record rfl rfl (.response addr resp.accepted resp.rejectReason resp.hosts) rfl
  | canceled => exact recorded

end Recorded

section Connections

variable {env : Env} {up : Upload}

/-- Attaching a connection adds it for who wants it. -/
theorem Upload.connections_attach (sent : List Sent) (up : Upload) (link : SocketAddr × Nat) :
    (attach (sent, up) link).2.connections =
      if up.Wants link.1 then up.connections.insert link.1 link.2 else up.connections := by
  by_cases wants : up.Wants link.1
  · simp only [attach, wants, if_true]
  · simp only [attach, wants, if_false]

@[simp] theorem Upload.stats_attach (sent : List Sent) (up : Upload) (link : SocketAddr × Nat) :
    (attach (sent, up) link).2.stats = up.stats := by
  by_cases wants : up.Wants link.1
  · simp only [attach, wants, if_true]
  · simp only [attach, wants, if_false]

/-- Who wants a connection after another is attached wanted it before. -/
theorem Upload.wants_of_attach {sent : List Sent} {link : SocketAddr × Nat} {addr : SocketAddr}
    (wants : (Upload.attach (sent, up) link).2.Wants addr) : up.Wants addr := by
  obtain ⟨notHeld, notRejected⟩ := wants
  rw [stats_attach] at notRejected
  refine ⟨fun held => notHeld ?_, notRejected⟩
  rw [connections_attach]
  split
  · exact Finmap.mem_insert.mpr (.inr held)
  · exact held

/-- An upload gets no other connections than it wants. -/
theorem Upload.keys_attach (links : List (SocketAddr × Nat)) (sent : List Sent) (up : Upload) :
    (links.foldl attach (sent, up)).2.connections.keys ⊆
      up.connections.keys ∪ (links.map Prod.fst).toFinset.filter up.Wants := by
  induction links generalizing sent up with
  | nil => simp
  | cons link rest ih =>
      have later := ih (attach (sent, up) link).1 (attach (sent, up) link).2
      refine later.trans (Finset.union_subset ?_ ?_)
      · intro addr member
        rw [connections_attach] at member
        split at member
        · rename_i wants
          rcases Finmap.mem_insert.mp (Finmap.mem_keys.mp member) with rfl | old
          · simp [wants]
          · exact Finset.mem_union_left _ (Finmap.mem_keys.mpr old)
        · exact Finset.mem_union_left _ member
      · intro addr member
        obtain ⟨further, wants⟩ := Finset.mem_filter.mp member
        refine Finset.mem_union_right _ (Finset.mem_filter.mpr ⟨?_, wants_of_attach wants⟩)
        simp only [List.map_cons, List.toFinset_cons]
        exact Finset.mem_insert_of_mem further

/-- Only active connections are offered. -/
theorem ConnectionSet.links_subset (set : ConnectionSet) (order : List SocketAddr) :
    ((set.links order).map Prod.fst).toFinset ⊆ set.active.keys := by
  intro addr member
  obtain ⟨link, isLink, rfl⟩ := List.mem_map.mp (List.mem_toFinset.mp member)
  obtain ⟨other, _, found⟩ := List.mem_filterMap.mp isLink
  obtain ⟨conn, isThere, rfl⟩ := Option.map_eq_some_iff.mp found
  exact Finmap.mem_keys.mpr (Finmap.mem_of_lookup_eq_some isThere)

/-- A future that is polled adds no connection. -/
theorem Upload.keys_pollFuture (now : Nat) (failures : Map SocketAddr Remote.Failure)
    (answer : SocketAddr × Channel Ack) :
    (pollFuture env now (failures, up) answer).2.connections.keys ⊆ up.connections.keys := by
  obtain ⟨addr, channel⟩ := answer
  have erased : (up.connections.erase addr).keys ⊆ up.connections.keys := by
    intro other member
    exact Finmap.mem_keys.mpr (Finmap.mem_erase.mp (Finmap.mem_keys.mp member)).2
  cases channel with
  | empty => exact Finset.Subset.refl _
  | value resp =>
      simp only [pollFuture, Channel.poll]
      split
      · exact Finset.Subset.refl _
      · exact erased
  | canceled => exact erased

/-- A poll adds no connection. -/
theorem Upload.keys_poll (initial : AddrCell) (now : Nat)
    (failures : Map SocketAddr Remote.Failure) (answers : List (SocketAddr × Channel Ack)) :
    (up.poll env initial now failures answers).2.1.connections.keys ⊆ up.connections.keys := by
  refine List.foldlRecOn
    (motive := fun state : _ × Upload => state.2.connections.keys ⊆ up.connections.keys) answers _
    (Finset.Subset.refl _) ?_
  intro state fewer answer _
  exact (keys_pollFuture now state.1 answer).trans fewer

end Connections

/-- The step is `wakeup_uploads`. -/
def Op.wakesUploads : Op → Bool
  | wakeupUploads _ => true
  | _ => false

/-- Where an upload has room for a connection, it has room for all it can get. -/
def LeavesRoom (config : Config) (set : ConnectionSet) (op : Op) : Prop :=
  op.wakesUploads = true → ∀ up ∈ set.uploads,
    up.connections.keys.card < config.initialConnections.toNat →
      up.connections.keys.card + (set.active.keys.filter up.Wants).card ≤
        config.initialConnections.toNat

instance (config : Config) (set : ConnectionSet) (op : Op) : Decidable (LeavesRoom config set op) :=
  inferInstanceAs (Decidable (_ → ∀ up ∈ set.uploads, _))

/-- An upload holds no more connections than are asked for. -/
def Bounded (config : Config) (up : Upload) : Prop :=
  up.connections.keys.card ≤ config.initialConnections.toNat

/-- A step that leaves room keeps the bound. -/
theorem bounded_of_comes {env : Env} {set : ConnectionSet} {op : Op} {up : Upload}
    (comes : Comes env set op up) (room : LeavesRoom env.config set op)
    (bounded : ∀ old ∈ set.uploads, Bounded env.config old) : Bounded env.config up := by
  have fewer : ∀ old ∈ set.uploads, up.connections.keys ⊆ old.connections.keys →
      Bounded env.config up :=
    fun old member fewer => (Finset.card_le_card fewer).trans (bounded old member)
  cases comes with
  | kept member => exact bounded up member
  | started => exact Nat.zero_le _
  | @received old addr img _ member =>
      apply fewer old member
      unfold Upload.receivedImage
      split <;> exact Finset.Subset.refl _
  | @aborted old addr img member =>
      apply fewer old member
      unfold Upload.abortedImage
      split <;> exact Finset.Subset.refl _
  | @disconnected old addr member =>
      apply fewer old member
      intro other still
      exact Finmap.mem_keys.mpr (Finmap.mem_erase.mp (Finmap.mem_keys.mp still)).2
  | @woken old order sent isWakeup member =>
      unfold Upload.wakeup
      split
      · rename_i few
        have all := room (by rw [isWakeup]; rfl) old member few
        have held := Finset.card_le_card (Upload.keys_attach (set.links order) sent old)
        have wanted : (((set.links order).map Prod.fst).toFinset.filter old.Wants).card ≤
            (set.active.keys.filter old.Wants).card :=
          Finset.card_le_card (Finset.filter_subset_filter _ (set.links_subset order))
        have union := Finset.card_union_le old.connections.keys
          (((set.links order).map Prod.fst).toFinset.filter old.Wants)
        unfold Bounded
        omega
      · exact bounded old member
  | @polled old failures answers member =>
      exact fewer old member (Upload.keys_poll _ _ _ _)

/-- If an upload that has room for a connection always has room for all it can get, no upload
ever holds more connections than the configuration says. -/
theorem connections_bounded (env : Env) (names : List Name) {trace : List SetEvent}
    {set : ConnectionSet} (steps : (ConnectionSet.machine env).Steps (.spawn names) trace set)
    (room : ∀ taken ∈ trace, LeavesRoom env.config taken.before taken.op) :
    ∀ up ∈ set.uploads, up.connections.keys.card ≤ env.config.initialConnections.toNat := by
  have kept : ∀ taken : SetEvent, (ConnectionSet.machine env).Takes taken →
      LeavesRoom env.config taken.before taken.op →
      (∀ old ∈ taken.before.uploads, Bounded env.config old) →
        ∀ up ∈ taken.after.uploads, Bounded env.config up := by
    intro taken takes room bounded up member
    exact bounded_of_comes (comes_of_step (ConnectionSet.step_of_takes takes) member) room bounded
  exact (steps.preserves (fun set => ∀ up ∈ set.uploads, Bounded env.config up)
    (fun taken => LeavesRoom env.config taken.before taken.op) kept room
    (by simp [ConnectionSet.spawn])).1

/-- One connection is used where three may be. -/
theorem connections_bounded_taking :
    ((Sample.result (Sample.env 3) Sample.taking).uploads.map fun up =>
      up.connections.keys.card) = [1] ∧
    ∀ up ∈ (Sample.result (Sample.env 3) Sample.taking).uploads,
      up.connections.keys.card ≤ (Sample.env 3).config.initialConnections.toNat :=
  ⟨by decide, connections_bounded _ _ (Sample.steps _ _) (by decide)⟩

/-- A connection that was made for a fetch goes beyond the one an upload may have. -/
theorem connections_exceed :
    ¬ ∀ env names (trace : List SetEvent) set,
      (ConnectionSet.machine env).Steps (.spawn names) trace set →
      ∀ up ∈ set.uploads, up.connections.keys.card ≤ env.config.initialConnections.toNat := by
  intro bounded
  have exceeds : ∃ up ∈ (Sample.result (Sample.env 1) Sample.sharing).uploads,
      ¬ up.connections.keys.card ≤ (Sample.env 1).config.initialConnections.toNat := by
    decide
  obtain ⟨up, member, more⟩ := exceeds
  exact more (bounded _ _ _ _ (Sample.steps _ _) up member)

/-- A report about an image that was read while an upload of that image to that path was in
progress. -/
def Reported (history : List SetEvent) (upload : SignedUpload) (addr : SocketAddr)
    (img : ReceivedImage) : Prop :=
  ∃ taken ∈ history, taken.before.reads taken.op = some (.notification addr (.receivedImage img)) ∧
    (∃ up ∈ taken.before.uploads, up.upload = upload) ∧
    img.path.place = upload.path.place ∧ img.id = upload.imageId

/-- Every server that counts as done has reported the image of the upload. -/
structure Backed (history : List SetEvent) (up : Upload) : Prop where
  ips : ∀ addr ∈ up.stats.book.doneIps, ∃ img, Reported history up.upload addr img
  servers : ∀ id ∈ up.stats.book.doneServers,
    ∃ addr img, Reported history up.upload addr img ∧ img.machineId = id

/-- Whatever is received at the path of an upload, however it is written, is its image,
unless the upload is weak. -/
def OwnImages (set : ConnectionSet) (op : Op) : Prop :=
  ∀ report ∈ (set.reads op).bind Message.received, ∀ up ∈ set.uploads, up.weak = false →
    up.upload.path.place = report.2.path.place → up.upload.imageId = report.2.id

instance (set : ConnectionSet) (op : Op) : Decidable (OwnImages set op) :=
  inferInstanceAs (Decidable (∀ report ∈ (set.reads op).bind Message.received, _))

section Received

variable {history : List SetEvent} {up old : Upload}

/-- What was reported stays reported. -/
theorem Reported.append {upload : SignedUpload} {addr : SocketAddr} {img : ReceivedImage}
    (reported : Reported history upload addr img) (taken : SetEvent) :
    Reported (history ++ [taken]) upload addr img := by
  obtain ⟨earlier, member, facts⟩ := reported
  exact ⟨earlier, List.mem_append_left _ member, facts⟩

/-- Nothing is done but by a report, as long as the upload is not weak. -/
structure DoneAlike (old up : Upload) : Prop where
  upload : up.upload = old.upload
  weak : up.weak = old.weak
  weakErrors : up.stats.weakErrors = old.stats.weakErrors
  ips : old.stats.weakErrors = false → up.stats.book.doneIps = old.stats.book.doneIps
  servers : up.stats.book.doneServers = old.stats.book.doneServers

/-- Nothing has changed. -/
theorem DoneAlike.refl (up : Upload) : DoneAlike up up := ⟨rfl, rfl, rfl, fun _ => rfl, rfl⟩

theorem DoneAlike.trans {middle : Upload} (first : DoneAlike old middle)
    (second : DoneAlike middle up) : DoneAlike old up where
  upload := second.upload.trans first.upload
  weak := second.weak.trans first.weak
  weakErrors := second.weakErrors.trans first.weakErrors
  ips strong := (second.ips (first.weakErrors.trans strong)).trans (first.ips strong)
  servers := second.servers.trans first.servers

theorem doneAlike_abortedImage (up : Upload) (addr : SocketAddr) (img : AbortedImage) :
    DoneAlike up (up.abortedImage addr img) := by
  unfold Upload.abortedImage
  split
  · exact ⟨rfl, rfl, rfl, fun _ => rfl, rfl⟩
  · exact .refl up

theorem doneAlike_disconnect (up : Upload) (addr : SocketAddr) :
    DoneAlike up (up.disconnect addr) :=
  ⟨rfl, rfl, rfl, fun _ => rfl, rfl⟩

theorem doneAlike_attach (sent : List Sent) (up : Upload) (link : SocketAddr × Nat) :
    DoneAlike up (Upload.attach (sent, up) link).2 := by
  by_cases wants : up.Wants link.1
  · simp only [Upload.attach, wants, if_true]
    exact ⟨rfl, rfl, rfl, fun _ => rfl, rfl⟩
  · simp only [Upload.attach, wants, if_false]
    exact .refl up

theorem doneAlike_wakeup (config : Config) (links : List (SocketAddr × Nat)) (sent : List Sent)
    (up : Upload) : DoneAlike up (up.wakeup config links sent).2 := by
  unfold Upload.wakeup
  split
  · refine List.foldlRecOn (motive := fun state : _ × Upload => DoneAlike up state.2) links _
      (.refl up) ?_
    intro state alike link _
    exact alike.trans (doneAlike_attach state.1 state.2 link)
  · exact .refl up

theorem doneAlike_pollFuture (env : Env) (now : Nat) (failures : Map SocketAddr Remote.Failure)
    (up : Upload) (answer : SocketAddr × Channel Ack) :
    DoneAlike up (Upload.pollFuture env now (failures, up) answer).2 := by
  obtain ⟨addr, channel⟩ := answer
  cases channel with
  | empty => exact .refl up
  | value resp =>
      refine ⟨rfl, rfl, ?_, fun strong => ?_, ?_⟩
      · exact Stats.weakErrors_record up.stats
          (.response addr resp.accepted resp.rejectReason resp.hosts)
      · simp only [Upload.pollFuture, Channel.poll, Stats.addResponse, strong]
        simp only [Bool.false_eq_true, and_false, if_false]
        split_ifs <;> rfl
      · simp only [Upload.pollFuture, Channel.poll, Stats.addResponse]
        split_ifs <;> rfl
  | canceled => exact ⟨rfl, rfl, rfl, fun _ => rfl, rfl⟩

/-- A poll changes nothing of what is done. -/
theorem doneAlike_poll (env : Env) (initial : AddrCell) (now : Nat)
    (failures : Map SocketAddr Remote.Failure) (answers : List (SocketAddr × Channel Ack))
    (up : Upload) : DoneAlike up (up.poll env initial now failures answers).2.1 := by
  refine List.foldlRecOn (motive := fun state : _ × Upload => DoneAlike up state.2) answers _
    (.refl up) ?_
  intro state alike answer _
  exact alike.trans (doneAlike_pollFuture env now state.1 state.2 answer)

/-- The book knows whether the upload is weak, and if it is not, what is done is backed. -/
structure Counted (history : List SetEvent) (up : Upload) : Prop where
  weakErrors : up.stats.weakErrors = up.weak
  backed : up.weak = false → Backed history up

/-- What changes nothing of what is done keeps what is counted. -/
theorem Counted.of_alike (counted : Counted history old) (alike : DoneAlike old up)
    (taken : SetEvent) : Counted (history ++ [taken]) up where
  weakErrors := by rw [alike.weakErrors, alike.weak, counted.weakErrors]
  backed strong := by
    rw [alike.weak] at strong
    have backed := counted.backed strong
    constructor
    · intro addr done
      rw [alike.ips (counted.weakErrors.trans strong)] at done
      obtain ⟨img, reported⟩ := backed.ips addr done
      exact ⟨img, alike.upload ▸ reported.append taken⟩
    · intro id done
      rw [alike.servers] at done
      obtain ⟨addr, img, reported, isServer⟩ := backed.servers id done
      exact ⟨addr, img, alike.upload ▸ reported.append taken, isServer⟩

/-- A report counts for an upload whose path it names. -/
theorem Counted.receivedImage (counted : Counted history old) {taken : SetEvent}
    {addr : SocketAddr} {img : ReceivedImage}
    (isRead : taken.before.reads taken.op = some (.notification addr (.receivedImage img)))
    (member : old ∈ taken.before.uploads) (own : OwnImages taken.before taken.op) :
    Counted (history ++ [taken]) (old.receivedImage addr img) := by
  unfold Upload.receivedImage
  split
  · rename_i matched
    refine ⟨counted.weakErrors, fun strong => ?_⟩
    have backed := counted.backed strong
    have isOwn : old.upload.imageId = img.id :=
      own (addr, img) (by rw [isRead]; rfl) old member strong matched.1
    have now : Reported (history ++ [taken]) old.upload addr img :=
      ⟨taken, by simp, isRead, ⟨old, member, rfl⟩, matched.1.symm, isOwn.symm⟩
    constructor
    · intro other done
      by_cases same : other = addr
      · exact ⟨img, same ▸ now⟩
      · have before : other ∈ old.stats.book.doneIps := by
          simp only [Stats.receivedImage] at done
          split at done
          · exact done
          · exact (Finset.mem_insert.mp done).resolve_left same
        obtain ⟨earlier, reported⟩ := backed.ips other before
        exact ⟨earlier, reported.append taken⟩
    · intro id done
      rcases Finmap.mem_insert.mp done with rfl | before
      · exact ⟨addr, img, now, rfl⟩
      · obtain ⟨other, earlier, reported, isServer⟩ := backed.servers id before
        exact ⟨other, earlier, reported.append taken, isServer⟩
  · exact counted.of_alike (.refl old) taken

/-- A step keeps what is counted, when what is received is the upload's own. -/
theorem counted_of_comes {env : Env} {taken : SetEvent}
    (comes : Comes env taken.before taken.op up) (own : OwnImages taken.before taken.op)
    (counted : ∀ old ∈ taken.before.uploads, Counted history old) :
    Counted (history ++ [taken]) up := by
  cases comes with
  | kept member => exact (counted up member).of_alike (.refl up) taken
  | started =>
      refine ⟨rfl, fun _ => ⟨fun addr done => ?_, fun id done => ?_⟩⟩
      · exact absurd done (Finset.notMem_empty addr)
      · exact absurd done Finmap.notMem_empty
  | received isRead member => exact (counted _ member).receivedImage isRead member own
  | aborted member => exact (counted _ member).of_alike (doneAlike_abortedImage _ _ _) taken
  | disconnected member =>
      exact (counted _ member).of_alike (doneAlike_disconnect _ _) taken
  | woken _ member => exact (counted _ member).of_alike (doneAlike_wakeup _ _ _ _) taken
  | polled member => exact (counted _ member).of_alike (doneAlike_poll _ _ _ _ _ _) taken

end Received

/-- If whatever is received at the path of an upload that is not weak is its image, every
server that counts as done for such an upload has reported that image at that path. -/
theorem done_reported (env : Env) (names : List Name) {trace : List SetEvent}
    {set : ConnectionSet} (steps : (ConnectionSet.machine env).Steps (.spawn names) trace set)
    (own : ∀ taken ∈ trace, OwnImages taken.before taken.op) :
    ∀ up ∈ set.uploads, up.weak = false → Backed trace up := by
  have counted : ∀ up ∈ set.uploads, Counted trace up := by
    refine steps.preserves_history (fun trace set => ∀ up ∈ set.uploads, Counted trace up)
      (fun taken => OwnImages taken.before taken.op) ?_ own (by simp [ConnectionSet.spawn])
    intro history taken takes own counted up member
    exact counted_of_comes (comes_of_step (ConnectionSet.step_of_takes takes) member) own counted
  intro up member strong
  exact (counted up member).backed strong

/-- The server reports the image of the upload. -/
theorem done_reported_own :
    ((Sample.result (Sample.env 3) (Sample.reporting 1)).uploads.map fun up =>
      up.stats.book.doneIps) = [{Sample.server}] ∧
    ∀ up ∈ (Sample.result (Sample.env 3) (Sample.reporting 1)).uploads, up.weak = false →
      Backed (Sample.trace (Sample.env 3) (Sample.reporting 1)) up :=
  ⟨by decide, done_reported _ _ (Sample.steps _ _) (by decide)⟩

/-- The server reports another image at the path of the upload, and counts as done. -/
theorem other_image_counts :
    ¬ ∀ env names (trace : List SetEvent) set,
      (ConnectionSet.machine env).Steps (.spawn names) trace set →
      ∀ up ∈ set.uploads, up.weak = false → Backed trace up := by
  intro backed
  have counts : ∃ up ∈ (Sample.result (Sample.env 3) (Sample.reporting 2)).uploads,
      up.weak = false ∧ Sample.server ∈ up.stats.book.doneIps ∧ up.upload.imageId = ⟨[1]⟩ := by
    decide
  have others : ∀ taken ∈ Sample.trace (Sample.env 3) (Sample.reporting 2),
      ∀ report ∈ (taken.before.reads taken.op).bind Message.received, report.2.id = ⟨[2]⟩ := by
    decide
  obtain ⟨up, member, strong, done, isImage⟩ := counts
  obtain ⟨img, taken, isTaken, isRead, _, _, isOwn⟩ :=
    (backed _ _ _ _ (Sample.steps _ _) up member strong).ips Sample.server done
  have isOther := others taken isTaken (Sample.server, img) (by rw [isRead]; rfl)
  rw [isOwn, isImage] at isOther
  cases isOther

end Ciruela.Cluster
