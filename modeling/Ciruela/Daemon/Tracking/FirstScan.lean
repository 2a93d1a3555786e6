import Ciruela.Daemon.Tracking.RescanLoop

/-!
# The first scan

When the daemon starts, the metadata reports every base directory with a request of its own,
and the loop over the requests looks for each image of the directory and resumes the upload
of those that are missing. These requests wait in the queue of all others, and they are
dropped like all others.
-/

namespace Ciruela

open Foundation

namespace Tracking

open Metadata (Env Io Found)

/-- The path was handed to `resume_dir`. -/
def Passed (history : List TrackerEvent) (request : Request) (path : VPath) : Prop :=
  ∃ event ∈ history, ∃ io config rest, event.op = .resume io ∧
    event.before.rescan = .resuming request config path rest

/-- The directory of an image was looked for, with this result. -/
def LookedFor (history : List TrackerEvent) (request : Request) (path : VPath)
    (result : Option Bool) : Prop :=
  ∃ event ∈ history, ∃ config rest, event.op = .checked result ∧
    event.before.rescan = .checking request config path rest

/-- The directory of an image was looked for, and its upload was resumed if it was missing. -/
def Checked (history : List TrackerEvent) (request : Request) (dir : List Char) : Prop :=
  ∃ path result, request.path.join (Path.ofText dir) = .ok path ∧
    LookedFor history request path result ∧ (result = some false → Passed history request path)

/-- The scan for a request has ended with this result. -/
def Scanned (history : List TrackerEvent) (request : Request)
    (result : Except BaseDir.Error BaseDir.BaseDirState) : Prop :=
  ∃ event ∈ history, ∃ time, Ends event request time result

/-- The scan has failed, or all that it has found was looked for. -/
def FirstServed (history : List TrackerEvent) (request : Request) : Prop :=
  (∃ error, Scanned history request (.error error)) ∨
    ∃ data, Scanned history request (.ok data) ∧
      ∀ dir ∈ BaseDir.entries data.dirs, Checked history request dir.1

/-- While a request of the first scan waits, no scan of its directory ends well that has begun
after it was sent, and the uploads that the loop resumes can be resumed. -/
structure Undisturbed (env : Env) (event : TrackerEvent) : Prop where
  fresh : ∀ ended time data, Ends event ended time (.ok data) →
    ∀ waiting ∈ event.before.queue, waiting.firstTime = true →
      waiting.path.place = ended.path.place → time ≤ waiting.time
  resumes : ∀ io request config path rest, event.op = .resume io →
    event.before.rescan = .resuming request config path rest →
      ∃ image store, Metadata.resumeUpload env io path event.before.node.store =
        .ok (.ok image, store)

/-- What the loop has still to look for: this path, and then the rest. -/
def Remains (history : List TrackerEvent) (request : Request) (path : VPath)
    (rest : List (List Char × State)) : Prop :=
  ∃ data done dir, Scanned history request (.ok data) ∧
    BaseDir.entries data.dirs = done ++ dir :: rest ∧
    request.path.join (Path.ofText dir.1) = .ok path ∧
    ∀ earlier ∈ done, Checked history request earlier.1

/-- How far the loop has come with the request it is busy with. -/
def InHand (history : List TrackerEvent) : Rescan → Prop
  | .checking request _ path rest => Remains history request path rest
  | .resuming request _ path rest =>
      Remains history request path rest ∧ LookedFor history request path (some false)
  | .resumed request _ path result rest =>
      Remains history request path rest ∧ LookedFor history request path (some false) ∧
        Passed history request path ∧ ∃ image, result = .ok image
  | .ended => False
  | _ => True

section Growing

variable {history : List TrackerEvent} {request : Request} {path : VPath}

theorem Passed.snoc (passed : Passed history request path) (event : TrackerEvent) :
    Passed (history ++ [event]) request path := by
  obtain ⟨old, member, rest⟩ := passed
  exact ⟨old, List.mem_append_left _ member, rest⟩

theorem LookedFor.snoc {result : Option Bool} (looked : LookedFor history request path result)
    (event : TrackerEvent) : LookedFor (history ++ [event]) request path result := by
  obtain ⟨old, member, rest⟩ := looked
  exact ⟨old, List.mem_append_left _ member, rest⟩

theorem Checked.snoc {dir : List Char} (checked : Checked history request dir)
    (event : TrackerEvent) : Checked (history ++ [event]) request dir := by
  obtain ⟨path, result, joined, looked, passed⟩ := checked
  exact ⟨path, result, joined, looked.snoc event, fun missing => (passed missing).snoc event⟩

theorem Scanned.snoc {result : Except BaseDir.Error BaseDir.BaseDirState}
    (scanned : Scanned history request result) (event : TrackerEvent) :
    Scanned (history ++ [event]) request result := by
  obtain ⟨old, member, rest⟩ := scanned
  exact ⟨old, List.mem_append_left _ member, rest⟩

/-- A request that was served stays served. -/
theorem FirstServed.snoc (served : FirstServed history request) (event : TrackerEvent) :
    FirstServed (history ++ [event]) request := by
  obtain ⟨error, scanned⟩ | ⟨data, scanned, checked⟩ := served
  · exact Or.inl ⟨error, scanned.snoc event⟩
  · exact Or.inr ⟨data, scanned.snoc event, fun dir member => (checked dir member).snoc event⟩

theorem Remains.snoc {rest : List (List Char × State)} (remains : Remains history request path rest)
    (event : TrackerEvent) : Remains (history ++ [event]) request path rest := by
  obtain ⟨data, done, dir, scanned, list, joined, checked⟩ := remains
  exact ⟨data, done, dir, scanned.snoc event, list, joined,
    fun earlier member => (checked earlier member).snoc event⟩

theorem InHand.snoc {rescan : Rescan} (inHand : InHand history rescan) (event : TrackerEvent) :
    InHand (history ++ [event]) rescan := by
  cases rescan with
  | idle => trivial
  | scanning => trivial
  | checking request config path rest => exact Remains.snoc inHand event
  | resuming request config path rest => exact ⟨inHand.1.snoc event, inHand.2.snoc event⟩
  | resumed request config path result rest =>
      obtain ⟨remains, looked, passed, resumed⟩ := inHand
      exact ⟨remains.snoc event, looked.snoc event, passed.snoc event, resumed⟩
  | ended => exact inHand.elim

/-- Going on to the next image, or to the end. -/
theorem nextDir_inHand {tracker next : Tracker} {config : Directory} {data : BaseDir.BaseDirState}
    (done : List (List Char × State)) {rest : List (List Char × State)}
    (scanned : Scanned history request (.ok data)) (list : BaseDir.entries data.dirs = done ++ rest)
    (checked : ∀ earlier ∈ done, Checked history request earlier.1)
    (moved : tracker.nextDir request config rest = some next) :
    InHand history next.rescan ∧
      (next.rescan.request = some request ∨ FirstServed history request) := by
  obtain ⟨rfl, rfl⟩ | ⟨dir, rest, path, rfl, joined, rfl⟩ := nextDir_eq moved
  · refine ⟨trivial, Or.inr (Or.inr ⟨data, scanned, fun dir member => checked dir ?_⟩)⟩
    rwa [list, List.append_nil] at member
  · exact ⟨⟨data, done, dir, scanned, list, joined, checked⟩, Or.inl rfl⟩

end Growing

section Pledged

variable {env : Env} {event : TrackerEvent} {history : List TrackerEvent} {tracker : Tracker}

/-- The request that is sent when the first scan reports a path. -/
def reported (event : TrackerEvent) (path : VPath) : Request :=
  ⟨event.before.sent, path, event.before.now, true⟩

/-- What the first scan has asked for waits, is in hand or is done. Nothing is known that
makes the loop drop such a request. -/
structure Pledged (history : List TrackerEvent) (tracker : Tracker) : Prop where
  timed : Timed history tracker
  inHand : InHand history tracker.rescan
  kept : ∀ request ∈ tracker.queue, request.firstTime = true → ∀ found time,
    tracker.lastScan request.path.place = some (found, time) → time ≤ request.time
  promised : ∀ event ∈ history, ∀ path, event.op = .scanDir path →
    reported event path ∈ tracker.queue ∨ tracker.rescan.request = some (reported event path) ∨
      FirstServed history (reported event path)

namespace Pledged

/-- A first request that waits was sent after every scan of its directory that is known. -/
theorem kept_step (pledged : Pledged history event.before) (moved : Moved event)
    (timed : Timed (history ++ [event]) event.after) (undisturbed : Undisturbed env event)
    {request : Request} (member : request ∈ event.after.queue) (first : request.firstTime = true)
    {found : Found} {time : Nat}
    (isKnown : event.after.lastScan request.path.place = some (found, time)) :
    time ≤ request.time := by
  have old (waits : request ∈ event.before.queue) : time ≤ request.time := by
    obtain ⟨scans, _⟩ | ⟨_, _, _, _, scans, _⟩ | ⟨ended, endTime, data, ends, scans, _⟩ :=
      moved.scan_cases
    · exact pledged.kept request waits first found time (scans _ ▸ isKnown)
    · exact pledged.kept request waits first found time (scans _ ▸ isKnown)
    · rw [scans] at isKnown
      split at isKnown
      · rename_i here
        obtain ⟨-, rfl⟩ := Prod.mk.inj (Option.some.inj isKnown)
        exact undisturbed.fresh ended endTime data ends request waits first here
      · exact pledged.kept request waits first found time isKnown
  obtain ⟨same, _⟩ | ⟨path, firstTime, clock, queue, _⟩ | ⟨head, queue⟩ := moved.queue_cases
  · exact old (same ▸ member)
  · rw [queue] at member
    rcases List.mem_append.mp member with earlier | last
    · exact old earlier
    · -- everything that is known when a request is sent is older
      obtain rfl := List.mem_singleton.mp last
      exact (timed.known _ found time isKnown).trans clock.le
  · exact old (queue ▸ List.mem_cons_of_mem _ member)

/-- The image that was looked for is checked, and the loop goes on to the next. -/
theorem next {before after : Tracker} {request : Request} {config : Directory} {path : VPath}
    {rest : List (List Char × State)} {result : Option Bool}
    (remains : Remains history request path rest) (looked : LookedFor history request path result)
    (passed : result = some false → Passed history request path)
    (moved : before.nextDir request config rest = some after) :
    InHand history after.rescan ∧
      (after.rescan.request = some request ∨ FirstServed history request) := by
  obtain ⟨data, done, dir, scanned, list, joined, checked⟩ := remains
  refine nextDir_inHand (done ++ [dir]) scanned (by rw [list]; simp) ?_ moved
  intro earlier member
  rcases List.mem_append.mp member with old | last
  · exact checked earlier old
  · rw [List.mem_singleton.mp last]
    exact ⟨path, result, joined, looked, passed⟩

/-- The loop stays with a request until it is served. -/
theorem work_step (pledged : Pledged history event.before) (undisturbed : Undisturbed env event)
    (takes : (trackerMachine env).Takes event) :
    InHand (history ++ [event]) event.after.rescan ∧
      ∀ request, event.before.rescan.request = some request → request.firstTime = true →
        event.after.rescan.request = some request ∨ FirstServed (history ++ [event]) request := by
  obtain ⟨before, op, answer, after⟩ := event
  have stepped : before.exec env op = some (answer, after) := takes
  have moved := moved_of_takes takes
  have inHand : InHand history before.rescan := pledged.inHand
  have last (event : TrackerEvent) : event ∈ history ++ [event] :=
    List.mem_append_right _ (List.mem_singleton_self _)
  have quietly (quiet : op.ofLoop = false) :
      InHand (history ++ [⟨before, op, answer, after⟩]) after.rescan ∧
        ∀ request, before.rescan.request = some request → request.firstTime = true →
          after.rescan.request = some request ∨
            FirstServed (history ++ [⟨before, op, answer, after⟩]) request := by
    have same : after.rescan = before.rescan := moved.rescan_of_quiet quiet
    rw [same]
    exact ⟨inHand.snoc _, fun request isRequest _ => Or.inl isRequest⟩
  have alone {request : Request} {trace : List TrackerEvent}
      (goesOn : after.rescan.request = some request ∨ FirstServed trace request) :
      ∀ other, some request = some other → other.firstTime = true →
        after.rescan.request = some other ∨ FirstServed trace other := by
    intro other same _
    rwa [Option.some.inj same] at goesOn
  show InHand _ after.rescan ∧ ∀ request, before.rescan.request = some request → _
  cases op with
  | tick elapsed => exact quietly rfl
  | node op => exact quietly rfl
  | scanDir path => exact quietly rfl
  | rescanDir path => exact quietly rfl
  | take =>
      obtain ⟨request, queue, isIdle, _, ⟨_, rfl⟩ | ⟨_, config, _, rfl⟩⟩ := take_cases stepped
      · rw [isIdle]
        exact ⟨trivial, fun _ none => by cases none⟩
      · rw [isIdle]
        exact ⟨trivial, fun _ none => by cases none⟩
  | scanned io now names file =>
      obtain ⟨request, config, time, isScanning, outcome⟩ := scanned_cases stepped
      rw [isScanning]
      obtain ⟨error, store, ran, rfl⟩ | ⟨data, store, ran, goes⟩ := outcome
      · refine ⟨trivial, alone (Or.inr (Or.inl ⟨error, _, last _, time, ?_⟩))⟩
        exact ⟨config, io, now, names, file, store, isScanning, rfl, ran⟩
      · have scanned : Scanned (history ++ [⟨before, .scanned io now names file, answer, after⟩])
            request (.ok data) :=
          ⟨_, last _, time, config, io, now, names, file, store, isScanning, rfl, ran⟩
        cases isFirst : request.firstTime with
        | true =>
            rw [isFirst, if_pos rfl] at goes
            obtain ⟨inHand, goesOn⟩ := nextDir_inHand [] scanned rfl (by simp) goes
            exact ⟨inHand, alone goesOn⟩
        | false =>
            rw [isFirst, if_neg Bool.false_ne_true] at goes
            obtain ⟨_, rfl⟩ | ⟨_, _, _, nothing, _⟩ := nextDir_eq goes
            · refine ⟨trivial, fun other same first => ?_⟩
              obtain rfl := Option.some.inj same
              rw [isFirst] at first
              cases first
            · cases nothing
  | checked result =>
      obtain ⟨request, config, path, rest, isChecking, outcome⟩ := checked_cases stepped
      rw [isChecking] at inHand ⊢
      have remains := Remains.snoc inHand ⟨before, .checked result, answer, after⟩
      have looked : LookedFor (history ++ [⟨before, .checked result, answer, after⟩]) request path
          result := ⟨_, last _, config, rest, rfl, isChecking⟩
      obtain ⟨rfl, rfl⟩ | ⟨there, goes⟩ := outcome
      · exact ⟨⟨remains, looked⟩, fun other same _ => Or.inl same⟩
      · obtain ⟨inHand, goesOn⟩ := next remains looked (fun missing => absurd missing there) goes
        exact ⟨inHand, alone goesOn⟩
  | resume io =>
      obtain ⟨request, config, path, rest, result, store, isResuming, ran, rfl⟩ :=
        resume_cases stepped
      obtain ⟨image, _, resumes⟩ :=
        undisturbed.resumes io request config path rest rfl isResuming
      obtain ⟨rfl, -⟩ := Prod.mk.inj (Except.ok.inj (ran.symm.trans resumes))
      rw [isResuming] at inHand ⊢
      obtain ⟨remains, looked⟩ := inHand
      exact ⟨⟨remains.snoc _, looked.snoc _, ⟨_, last _, io, config, rest, rfl, isResuming⟩, image,
        rfl⟩, fun other same _ => Or.inl same⟩
  | proceed task =>
      obtain ⟨request, config, path, rest, outcome⟩ := proceed_rescan_cases stepped
      obtain ⟨image, effect, isResumed, _, _, goes⟩ | ⟨error, isResumed, rfl⟩ := outcome
      · rw [isResumed] at inHand ⊢
        obtain ⟨remains, looked, passed, _⟩ := inHand
        obtain ⟨inHand, goesOn⟩ := next (remains.snoc _)
          (looked.snoc ⟨before, .proceed task, answer, after⟩) (fun _ => passed.snoc _) goes
        exact ⟨inHand, alone goesOn⟩
      · rw [isResumed] at inHand
        obtain ⟨_, _, _, image, isOk⟩ := inHand
        cases isOk

/-- A request that waits goes on to wait, or the loop takes it in hand. -/
theorem waiting_step (pledged : Pledged history event.before) (moved : Moved event)
    {request : Request} (waits : request ∈ event.before.queue) (first : request.firstTime = true) :
    request ∈ event.after.queue ∨ event.after.rescan.request = some request := by
  cases moved with
  | outside queue => exact Or.inl (queue ▸ waits)
  | sent _ _ queue => exact Or.inl (queue ▸ List.mem_append_left _ waits)
  | skipped head queue found time _ _ isQueue isKnown newer after =>
      rw [isQueue] at waits
      rcases List.mem_cons.mp waits with rfl | later
      · -- only what is older than the request is known
        have member : request ∈ event.before.queue := isQueue ▸ List.mem_cons_self
        exact absurd newer (not_lt.mpr (pledged.kept request member first found time isKnown))
      · exact Or.inl (by rwa [after])
  | began head queue config _ _ isQueue _ after =>
      rw [isQueue] at waits
      rcases List.mem_cons.mp waits with rfl | later
      · exact Or.inr (by rw [after]; rfl)
      · exact Or.inl (by rwa [after])
  | failed _ _ _ _ queue => exact Or.inl (queue ▸ waits)
  | committed _ _ _ _ queue => exact Or.inl (queue ▸ waits)
  | looked queue => exact Or.inl (queue ▸ waits)

/-- A directory that is reported is in the queue. -/
theorem reported_mem {path : VPath} (takes : (trackerMachine env).Takes event)
    (isScan : event.op = .scanDir path) : reported event path ∈ event.after.queue := by
  obtain ⟨before, op, answer, after⟩ := event
  obtain rfl : op = .scanDir path := isScan
  have stepped : before.exec env (.scanDir path) = some (answer, after) := takes
  obtain ⟨-, rfl⟩ := send_eq (scanDir_eq stepped).2
  exact List.mem_append_right _ (List.mem_singleton_self _)

/-- A step keeps the pledge. -/
theorem step (pledged : Pledged history event.before) (undisturbed : Undisturbed env event)
    (takes : (trackerMachine env).Takes event) : Pledged (history ++ [event]) event.after := by
  have moved := moved_of_takes takes
  have timed := pledged.timed.step moved
  obtain ⟨inHand, works⟩ := pledged.work_step undisturbed takes
  refine ⟨timed, inHand, fun request member first found time isKnown =>
    pledged.kept_step moved timed undisturbed member first isKnown, ?_⟩
  intro old member path isScan
  rcases List.mem_append.mp member with earlier | last
  · obtain waits | busy | served := pledged.promised old earlier path isScan
    · exact (pledged.waiting_step moved waits rfl).imp_right Or.inl
    · exact Or.inr (works _ busy rfl)
    · exact Or.inr (Or.inr (served.snoc event))
  · obtain rfl := List.mem_singleton.mp last
    exact Or.inl (reported_mem takes isScan)

/-- Nothing is pledged at first. -/
theorem new (node : Node) (now : Nat) : Pledged [] (Tracker.new node now) :=
  ⟨.new node now, trivial, by simp [Tracker.new], by simp⟩

end Pledged

end Pledged

section Progress

variable {env : Env} {event : TrackerEvent} {history : List TrackerEvent} {tracker : Tracker}

/-- The loop makes a step as soon as what it waits for has ended. -/
def Tracker.GoesOn (env : Env) (tracker : Tracker) : Prop :=
  match tracker.rescan with
  | .idle => (tracker.exec env .take).isSome = true
  | .scanning request config _ => ∀ io now names file,
      (tracker.node.store.signatures.files request.path.names).Lists names →
      (BaseDir.scan io now names file config request.path tracker.node.store).Returns →
        (tracker.exec env (.scanned io now names file)).isSome = true
  | .checking _ _ _ _ => ∀ result, (tracker.exec env (.checked result)).isSome = true
  | .resuming _ _ path _ => ∀ io, (Metadata.resumeUpload env io path tracker.node.store).Returns →
      (tracker.exec env (.resume io)).isSome = true
  | .resumed _ _ _ _ _ => ∀ task, task ∉ tracker.node.tasks →
      (tracker.exec env (.proceed task)).isSome = true
  | .ended => False

/-- Going on to the next image does not fail. -/
theorem isSome_nextDir {dirs : List (List Char × State)}
    (named : ∀ dir ∈ dirs, ∃ file : FileName, file.text = dir.1) (tracker : Tracker)
    (request : Request) (config : Directory) {notice : Option (VPath × Found)} :
    ((tracker.nextDir request config dirs).bind fun next => pure (notice, next)).isSome = true := by
  cases dirs with
  | nil => rfl
  | cons dir rest =>
      obtain ⟨file, text⟩ := named dir List.mem_cons_self
      obtain ⟨path, joined, _⟩ := Metadata.join_name request.path file
      rw [Tracker.nextDir, ← text, joined]
      rfl

/-- What the scan for a request has found is under file names. -/
theorem named_of_scan {io : Io} {now : Nat} {names : List FileName} {file : Disk.KeepListFile}
    {config : Directory} {request : Request} {store after : Metadata.Meta}
    {data : BaseDir.BaseDirState}
    (ran : BaseDir.scan io now names file config request.path store = .ok (.ok data, after)) :
    ∀ dir ∈ (if request.firstTime then BaseDir.entries data.dirs else []),
      ∃ file : FileName, file.text = dir.1 := by
  intro dir member
  split at member
  · exact BaseDir.exists_fileName_of_scan ran member
  · cases member

/-- What remains to be looked for is under file names. -/
theorem Remains.named {request : Request} {path : VPath} {rest : List (List Char × State)}
    (remains : Remains history request path rest) :
    ∀ dir ∈ rest, ∃ file : FileName, file.text = dir.1 := by
  obtain ⟨data, done, first, ⟨event, _, _, _, _, _, _, _, _, _, _, ran⟩, list, _⟩ := remains
  intro dir member
  refine BaseDir.exists_fileName_of_scan ran ?_
  rw [list]
  exact List.mem_append_right _ (List.mem_cons_of_mem _ member)

/-- The path of an image has the key of its base directory. -/
theorem Remains.key_eq {request : Request} {path : VPath} {rest : List (List Char × State)}
    (remains : Remains history request path rest) : path.key = request.path.key := by
  obtain ⟨data, done, dir, ⟨event, _, _, _, _, _, _, _, _, _, _, ran⟩, list, joined, _⟩ := remains
  obtain ⟨file, text⟩ := BaseDir.exists_fileName_of_scan ran
    (list ▸ List.mem_append_right _ List.mem_cons_self : dir ∈ BaseDir.entries data.dirs)
  obtain ⟨other, otherJoined, place⟩ := Metadata.join_name request.path file
  rw [text] at otherJoined
  obtain rfl := Except.ok.inj (joined.symm.trans otherJoined)
  refine VPath.key_eq_of_above ?_
  rw [place]
  exact List.prefix_append _ _

/-- The loop goes on as long as anything waits. -/
theorem Pledged.goesOn (pledged : Pledged history tracker) (configured : Configured env tracker)
    (busy : tracker.rescan = .idle → tracker.queue ≠ []) : tracker.GoesOn env := by
  have inHand := pledged.inHand
  unfold Tracker.GoesOn
  cases isRescan : tracker.rescan with
  | idle =>
      obtain ⟨head, queue, isQueue⟩ := List.exists_cons_of_ne_nil (busy isRescan)
      obtain ⟨config, found⟩ := Finmap.mem_iff.mp
        (configured.waiting head (isQueue ▸ List.mem_cons_self))
      simp only [Tracker.exec, isRescan, isQueue]
      split
      · rfl
      · rw [found]
        rfl
  | scanning request config time =>
      intro io now names file lists returns
      obtain ⟨⟨result, store⟩, ran⟩ := returns
      simp only [Tracker.exec, isRescan, lists, if_true, ran]
      cases result with
      | error error => rfl
      | ok data => exact isSome_nextDir (named_of_scan ran) _ request config
  | checking request config path rest =>
      rw [isRescan] at inHand
      intro result
      simp only [Tracker.exec, isRescan]
      split
      · rfl
      · exact isSome_nextDir inHand.named tracker request config
  | resuming request config path rest =>
      rintro io ⟨⟨result, store⟩, ran⟩
      simp only [Tracker.exec, isRescan, ran]
      rfl
  | resumed request config path result rest =>
      rw [isRescan] at inHand
      obtain ⟨remains, _, _, image, rfl⟩ := inHand
      have isConfigured : path.key ∈ env.config.dirs := by
        rw [remains.key_eq]
        exact configured.busy request (by rw [isRescan]; rfl)
      obtain ⟨effect, fetched⟩ := returns_fetchDir isConfigured image false
      intro task free
      simp only [Tracker.exec, isRescan, free, if_false, fetched]
      exact isSome_nextDir remains.named _ request config
  | ended =>
      rw [isRescan] at inHand
      exact inHand

/-- What the loop has to do until a request is served: the requests before it, and what is
left for the one in hand. -/
def Tracker.toil (tracker : Tracker) (request : Request) : ℕ ×ₗ (ℕ ×ₗ ℕ) :=
  toLex (if tracker.rescan.request = some request then 0 else tracker.queue.idxOf request + 1,
    tracker.rescan.left)

/-- A step of the loop leaves less to do for a request, and nothing else leaves more. -/
def Nears (event : TrackerEvent) (request : Request) : Prop :=
  if event.op.ofLoop then event.after.toil request < event.before.toil request
  else event.after.toil request = event.before.toil request

/-- What is sent in the meantime waits behind a request. -/
theorem nears_of_quiet (moved : Moved event) (quiet : event.op.ofLoop = false) {request : Request}
    (awaited : request ∈ event.before.queue ∨ event.before.rescan.request = some request) :
    Nears event request := by
  rw [Nears, quiet, if_neg Bool.false_ne_true, Tracker.toil, Tracker.toil,
    moved.rescan_of_quiet quiet]
  rcases awaited with waits | busy
  · have same : event.after.queue.idxOf request = event.before.queue.idxOf request := by
      obtain same | ⟨path, firstTime, queue⟩ := moved.queue_of_quiet quiet
      · rw [same]
      · rw [queue, List.idxOf_append_of_mem waits]
    rw [same]
  · rw [if_pos busy, if_pos busy]

namespace Pledged

/-- Taking a request brings all that wait behind it nearer. -/
theorem take_nears (pledged : Pledged history event.before) (isTake : event.op = .take)
    (takes : (trackerMachine env).Takes event) {request : Request} (first : request.firstTime = true)
    (awaited : request ∈ event.before.queue ∨ event.before.rescan.request = some request) :
    Nears event request := by
  obtain ⟨before, op, answer, after⟩ := event
  obtain rfl : op = .take := isTake
  have stepped : before.exec env .take = some (answer, after) := takes
  show after.toil request < before.toil request
  obtain ⟨head, queue, isIdle, isQueue, outcome⟩ := take_cases stepped
  have notBusy : before.rescan.request ≠ some request := by
    rw [isIdle]
    simp [Rescan.request]
  have waits : request ∈ before.queue := awaited.resolve_right notBusy
  rw [Tracker.toil, Tracker.toil, if_neg notBusy, isQueue]
  refine Prod.Lex.left _ _ ?_
  by_cases isHead : head = request
  · subst isHead
    obtain ⟨skips, _⟩ | ⟨_, config, _, rfl⟩ := outcome
    · -- only what is older than the request is known
      obtain ⟨found, time, isKnown, newer⟩ := skips_iff.mp skips
      exact absurd newer (not_lt.mpr (pledged.kept head waits first found time isKnown))
    · show (if some head = some head then 0 else _) < _
      rw [if_pos rfl]
      exact Nat.succ_pos _
  · rw [List.idxOf_cons_ne _ isHead]
    obtain ⟨_, rfl⟩ | ⟨_, config, _, rfl⟩ := outcome
    · rw [if_neg notBusy]
      exact Nat.lt_succ_self _
    · show (if some head = some request then 0 else _) < _
      rw [if_neg fun same => isHead (Option.some.inj same)]
      exact Nat.lt_succ_self _

/-- Every step of the loop serves a request or brings it nearer. -/
theorem nears (pledged : Pledged history event.before) (undisturbed : Undisturbed env event)
    (takes : (trackerMachine env).Takes event) {request : Request} (first : request.firstTime = true)
    (awaited : request ∈ event.before.queue ∨ event.before.rescan.request = some request) :
    FirstServed (history ++ [event]) request ∨ Nears event request := by
  have moved := moved_of_takes takes
  cases loops : event.op.ofLoop with
  | false => exact Or.inr (nears_of_quiet moved loops awaited)
  | true =>
      by_cases isTake : event.op = .take
      · exact Or.inr (pledged.take_nears isTake takes first awaited)
      · obtain ⟨other, busy, after, less⟩ := loop_step takes loops isTake
        have less (place : Nat) :
            toLex (place, event.after.rescan.left) < toLex (place, event.before.rescan.left) :=
          Prod.Lex.right _ less
        by_cases same : other = request
        · subst same
          refine ((pledged.work_step undisturbed takes).2 other busy first).symm.imp_right ?_
          intro stillBusy
          rw [Nears, if_pos loops, Tracker.toil, Tracker.toil, if_pos busy, if_pos stillBusy]
          exact less 0
        · have notBusy : event.before.rescan.request ≠ some request := by
            rw [busy]
            exact fun equal => same (Option.some.inj equal)
          have notAfter : event.after.rescan.request ≠ some request := by
            rcases after with still | none
            · rw [still]
              exact fun equal => same (Option.some.inj equal)
            · rw [none]
              exact fun equal => by cases equal
          have queue : event.after.queue = event.before.queue := moved.queue_of_loop loops isTake
          refine Or.inr ?_
          rw [Nears, if_pos loops, Tracker.toil, Tracker.toil, if_neg notBusy, if_neg notAfter, queue]
          exact less _

end Pledged

/-- Where the requests of the first scan are not overtaken, each of them is served: the images
that its scan has found are looked for, and those that are missing are resumed. Until then the
loop can go on, and every step of it brings it nearer to the request. -/
theorem first_scan_checks (signatures : Tree Metadata.Content) (indexes : Tree (List UInt8))
    (now : Nat) {trace : List TrackerEvent} {finish : Tracker}
    (steps : (trackerMachine env).Steps (Tracker.new (Node.new signatures indexes) now) trace finish)
    (undisturbed : ∀ event ∈ trace, Undisturbed env event) :
    ∀ event ∈ trace, ∀ path, event.op = .scanDir path →
      FirstServed trace (reported event path) ∨
        (reported event path ∈ finish.queue ∨
            finish.rescan.request = some (reported event path)) ∧
          finish.GoesOn env ∧
          ∀ next : TrackerEvent, next.before = finish → (trackerMachine env).Takes next →
            Undisturbed env next →
              FirstServed (trace ++ [next]) (reported event path) ∨
                Nears next (reported event path) := by
  obtain ⟨pledged, configured⟩ := steps.preserves_history
    (fun history tracker => Pledged history tracker ∧ Configured env tracker) (Undisturbed env)
    (fun _ _ takes undisturbed inv => ⟨inv.1.step undisturbed takes, inv.2.step takes⟩) undisturbed
    ⟨.new _ now, .new signatures indexes now⟩
  intro event member path isScan
  obtain waits | busy | served := pledged.promised event member path isScan
  · refine Or.inr ⟨Or.inl waits, pledged.goesOn configured fun _ => List.ne_nil_of_mem waits, ?_⟩
    rintro next rfl takes undisturbed
    exact pledged.nears undisturbed takes rfl (Or.inl waits)
  · refine Or.inr ⟨Or.inr busy, pledged.goesOn configured fun isIdle => ?_, ?_⟩
    · rw [isIdle] at busy
      cases busy
    · rintro next rfl takes undisturbed
      exact pledged.nears undisturbed takes rfl (Or.inr busy)
  · exact Or.inl served

/-- The scan of a directory that is not cleaned ends, and what it has found is committed. -/
theorem exists_takes_found (env : Env) {request : Request} {config : Directory} {scanTime : Nat}
    {names : List FileName} (isScanning : tracker.rescan = .scanning request config scanTime)
    (unclean : config.autoClean = false) (unlisted : config.keepListFile = none)
    (lists : (tracker.node.store.signatures.files request.path.names).Lists names) :
    ∃ (answer : Option (VPath × Found)) (after middle : Tracker) (data : BaseDir.BaseDirState),
      (trackerMachine env).Takes ⟨tracker, .scanned Io.working 0 names .notFound, answer, after⟩ ∧
      data.dirs.keys = tracker.node.store.imagesAt .working request.path names ∧
      middle.queue = tracker.queue ∧
      middle.lastScan request.path.place = some (data.dirs, scanTime) ∧
      middle.nextDir request config
        (if request.firstTime then BaseDir.entries data.dirs else []) = some after := by
  have works : ¬ tracker.node.store.ScanFails .working request.path := by
    simp [Metadata.Meta.ScanFails]
  obtain ⟨data, store, ran, keys⟩ := BaseDir.scan_works 0 names works unclean unlisted
  have goes : (tracker.exec env (.scanned Io.working 0 names .notFound)).isSome = true := by
    simp only [Tracker.exec, isScanning, lists, if_true, ran]
    exact isSome_nextDir (named_of_scan ran) _ request config
  obtain ⟨⟨answer, after⟩, stepped⟩ := Option.isSome_iff_exists.mp goes
  obtain ⟨_, _, _, same, outcome⟩ := scanned_cases stepped
  obtain ⟨rfl, rfl, rfl⟩ := Rescan.scanning.inj (isScanning.symm.trans same)
  obtain ⟨error, _, failed, _⟩ | ⟨other, otherStore, otherRan, moved⟩ := outcome
  · cases ran.symm.trans failed
  · obtain ⟨isData, -⟩ := Prod.mk.inj (Except.ok.inj (ran.symm.trans otherRan))
    obtain rfl := Except.ok.inj isData
    obtain ⟨dir, committed, hash, lastScan, _⟩ := commitScan_spec
      { tracker with node := { tracker.node with store := otherStore } } data config scanTime
    refine ⟨answer, after, _, data, stepped, keys, ?_, ?_, moved⟩
    · rw [committed]
    · rw [committed, lastScan_insert rfl, if_pos (by rw [BaseDir.path_of_scan ran]), hash, lastScan]

end Progress

namespace Sample

open Metadata (Meta)

/-- The daemon has stopped after `/k/a` was committed, and is started again. -/
def restarted : Tracker :=
  Tracker.new (Node.new ((Metadata.machine (Metadata.Sample.env false)).play
    (Meta.new .empty .empty) [Metadata.Sample.append (Metadata.Sample.image 1),
      Metadata.Sample.commit]).2.signatures .empty) 0

/-- The first scan reports `/k`, and the loop begins with it. -/
def reporting : List TrackerOp := [.scanDir Metadata.Sample.base, .take]

/-- An upload to `/k/c` begins before the first scan reports `/k`. -/
def overtaking : List TrackerOp :=
  [.node (.request 0 (.startAppend Metadata.Io.working Metadata.Sample.keys
      ⟨Metadata.Sample.vpath "c" (by decide), Metadata.Sample.image 2, 5,
        [Metadata.Sample.signature 1]⟩)),
    .node (.proceed 0 ⟨∅, ∅⟩), .node (.start 0), .scanDir Metadata.Sample.base, .tick 1, .take]

/-- The files of `/k` in both cases. -/
def listed : List FileName := [Metadata.stateFile Metadata.Sample.name]

/-- The listing of the base directory. -/
def listedBoth : List FileName :=
  [Metadata.stateFile Metadata.Sample.name,
    Metadata.newStateFile ⟨['c'], by decide, by decide, by decide, by decide⟩]

end Sample

/-- `/k/a` is looked for when nothing comes between. -/
theorem first_scan_checks_restarted :
    let request : Request := ⟨0, Metadata.Sample.base, 0, true⟩
    ∃ trace finish,
      (trackerMachine (Metadata.Sample.env false)).Steps Sample.restarted trace finish ∧
      (∀ event ∈ trace, Undisturbed (Metadata.Sample.env false) event) ∧
      (∃ event ∈ trace, event.op = .scanDir Metadata.Sample.base ∧
        reported event Metadata.Sample.base = request) ∧
      (∃ path, LookedFor trace request path (some true)) ∧ FirstServed trace request := by
  intro request
  let start := Sample.play Sample.restarted Sample.reporting
  have isScanning : start.2.rescan = .scanning request (Metadata.Sample.directory false) 0 := rfl
  have isQueue : start.2.queue = [] := rfl
  obtain ⟨answer, after, middle, data, scans, keys, queue, _, goes⟩ :=
    exists_takes_found (Metadata.Sample.env false) isScanning rfl rfl (by decide +kernel :
      (start.2.node.store.signatures.files Metadata.Sample.base.names).Lists Sample.listed)
  have one : (BaseDir.entries data.dirs).length = 1 := by
    rw [BaseDir.length_entries, keys]
    decide +kernel
  obtain ⟨nothing, -⟩ | ⟨dir, rest, path, list, _, rfl⟩ := nextDir_eq goes
  · have none : (BaseDir.entries data.dirs).length = 0 := congrArg List.length nothing
    omega
  have last : rest = [] := by
    have length : (BaseDir.entries data.dirs).length = rest.length + 1 := congrArg List.length list
    exact List.length_eq_zero_iff.mp (by omega)
  subst last
  let found : Tracker :=
    { middle with rescan := .checking request (Metadata.Sample.directory false) path [] }
  let looks : TrackerEvent := ⟨found, .checked (some true), none, { found with rescan := .idle }⟩
  have checks : (trackerMachine (Metadata.Sample.env false)).Takes looks := rfl
  have steps := (Machine.Steps.of_play (trackerMachine (Metadata.Sample.env false)) Sample.restarted
    Sample.reporting).append (.cons scans (.cons checks .refl))
  have undisturbed : ∀ event ∈ start.1 ++ [⟨start.2, .scanned Io.working 0 Sample.listed .notFound,
      answer, found⟩, looks], Undisturbed (Metadata.Sample.env false) event := by
    intro event member
    simp only [List.mem_append, List.mem_cons, List.not_mem_nil, or_false] at member
    rcases member with played | rfl | rfl
    · have isOp := Machine.Steps.op_mem_of_play played
      simp only [Sample.reporting, List.mem_cons, List.not_mem_nil, or_false] at isOp
      refine ⟨?_, ?_⟩
      · rintro _ _ _ ⟨_, _, _, _, _, _, _, isScanned, _⟩
        rcases isOp with isOp | isOp
        all_goals cases isOp.symm.trans isScanned
      · intro _ _ _ _ _ isResume
        rcases isOp with isOp | isOp
        all_goals cases isOp.symm.trans isResume
    · refine ⟨fun _ _ _ _ waiting member => ?_, fun _ _ _ _ _ isResume => by cases isResume⟩
      rw [isQueue] at member
      cases member
    · refine ⟨?_, fun _ _ _ _ _ isResume => by cases isResume⟩
      rintro _ _ _ ⟨_, _, _, _, _, _, _, isScanned, _⟩
      cases isScanned
  let reports : TrackerEvent := ⟨Sample.restarted, .scanDir Metadata.Sample.base, none,
    (Sample.play Sample.restarted (Sample.reporting.take 1)).2⟩
  have isReport : start.1[0]? = some reports := rfl
  have member := List.mem_append_left
    [⟨start.2, .scanned Io.working 0 Sample.listed .notFound, answer, found⟩, looks]
    (List.mem_of_getElem? isReport)
  refine ⟨_, _, steps, undisturbed, ⟨reports, member, rfl, rfl⟩,
    ⟨path, looks, by simp, _, _, rfl, rfl⟩, ?_⟩
  obtain served | ⟨waits | busy, _⟩ := first_scan_checks _ _ 0 steps undisturbed reports member
    Metadata.Sample.base rfl
  · exact served
  · rw [show ({ found with rescan := .idle } : Tracker).queue = [] from queue.trans isQueue] at waits
    cases waits
  · cases busy

/-- The upload has asked for a scan of `/k` first. That scan begins after the request of the
first scan was sent, so this one is dropped, and nobody looks for `/k/a`. -/
theorem first_scan_dropped :
    let request : Request := ⟨1, Metadata.Sample.base, 0, true⟩
    ∃ trace finish,
      (trackerMachine (Metadata.Sample.env false)).Steps Sample.restarted trace finish ∧
      (∃ event ∈ trace, event.op = .scanDir Metadata.Sample.base ∧
        reported event Metadata.Sample.base = request) ∧
      (∃ found time, finish.lastScan Metadata.Sample.base.place = some (found, time) ∧
        ['a'] ∈ found) ∧
      finish.queue = [] ∧ finish.rescan = .idle ∧ ¬ FirstServed trace request ∧
      ∀ path result, ¬ LookedFor trace request path result := by
  intro request
  let machine := trackerMachine (Metadata.Sample.env false)
  let start := Sample.play Sample.restarted Sample.overtaking
  have isScanning : start.2.rescan =
      .scanning ⟨0, Metadata.Sample.base, 0, false⟩ (Metadata.Sample.directory false) 1 := rfl
  have isQueue : start.2.queue = [request] := rfl
  obtain ⟨answer, after, middle, data, scans, keys, queue, isKnown, goes⟩ :=
    exists_takes_found (Metadata.Sample.env false) isScanning rfl rfl (by decide +kernel :
      (start.2.node.store.signatures.files Metadata.Sample.base.names).Lists Sample.listedBoth)
  obtain rfl : { middle with rescan := .idle } = after := Option.some.inj goes
  have drops : machine.Takes ⟨{ middle with rescan := .idle }, .take, none,
      { middle with rescan := .idle, queue := [] }⟩ := by
    have skips : Tracker.skips { middle with rescan := .idle, queue := [] } request = true :=
      skips_iff.mpr ⟨data.dirs, 1, isKnown, Nat.zero_lt_one⟩
    show Tracker.exec { middle with rescan := .idle } (Metadata.Sample.env false) .take = some _
    simp only [Tracker.exec, queue, isQueue, skips, if_true]
  have steps := (Machine.Steps.of_play machine Sample.restarted Sample.overtaking).append
    (.cons scans (.cons drops .refl))
  let reports : TrackerEvent := ⟨(Sample.play Sample.restarted (Sample.overtaking.take 3)).2,
    .scanDir Metadata.Sample.base, none, (Sample.play Sample.restarted (Sample.overtaking.take 4)).2⟩
  have isReport : start.1[3]? = some reports := rfl
  have ops {event : TrackerEvent} (member : event ∈ start.1) (checks : event.op.ofLoop = true) :
      event.op = .take := by
    have isOp := Machine.Steps.op_mem_of_play member
    simp only [Sample.overtaking, List.mem_cons, List.not_mem_nil, or_false] at isOp
    rcases isOp with isOp | isOp | isOp | isOp | isOp | isOp
    all_goals first | exact isOp | (rw [isOp] at checks; cases checks)
  have unscanned (result : Except BaseDir.Error BaseDir.BaseDirState) :
      ¬ Scanned (start.1 ++ [⟨start.2, .scanned Io.working 0 Sample.listedBoth .notFound, answer,
        { middle with rescan := .idle }⟩, ⟨{ middle with rescan := .idle }, .take, none,
          { middle with rescan := .idle, queue := [] }⟩]) request result := by
    rintro ⟨event, member, time, config, _, _, _, _, _, isBusy, isScanned, _⟩
    simp only [List.mem_append, List.mem_cons, List.not_mem_nil, or_false] at member
    rcases member with played | rfl | rfl
    · rw [ops played (by rw [isScanned]; rfl)] at isScanned
      cases isScanned
    · obtain ⟨same, -, -⟩ := Rescan.scanning.inj (isScanning.symm.trans isBusy)
      have number : 0 = 1 := congrArg Request.number same
      cases number
    · cases isScanned
  refine ⟨_, _, steps, ⟨reports, ?_, rfl, rfl⟩, ⟨data.dirs, 1, isKnown, ?_⟩, rfl, rfl, ?_, ?_⟩
  · exact List.mem_append_left _ (List.mem_of_getElem? isReport)
  · rw [← Finmap.mem_keys, keys]
    decide +kernel
  · rintro (⟨error, scanned⟩ | ⟨data, scanned, _⟩)
    · exact unscanned _ scanned
    · exact unscanned _ scanned
  · rintro path result ⟨event, member, config, rest, isChecked, _⟩
    simp only [List.mem_append, List.mem_cons, List.not_mem_nil, or_false] at member
    rcases member with played | rfl | rfl
    · rw [ops played (by rw [isChecked]; rfl)] at isChecked
      cases isChecked
    · cases isChecked
    · cases isChecked

end Tracking

end Ciruela
