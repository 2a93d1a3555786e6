import Ciruela.Daemon.Tracking.BaseDir

/-!
# Reconciliation of base directories

When a peer has other images in a base directory, a node reads the state of the
directory there, compares it with its own and plans uploads: an append of what it does
not have, and a replacement of what the peer has newer. A plan looks at the first
signature of a remote state only. The order in which a hash map hands out its items,
and the order of remote states that are equally new, are left open.
-/

namespace Ciruela

open Foundation

namespace Reconciliation

open BaseDir (entries samePath)
open Metadata (Found)

/-- `RECONCILE_BASEDIR_THROTTLE`. -/
def throttle : Nat := 3

/-- A request that a plan makes. -/
inductive Action where
  | append (params : AppendDir)
  | replace (params : ReplaceDir)
deriving DecidableEq

/-- An upload that is planned for a name. -/
structure Planned where
  name : List Char
  action : Action
deriving DecidableEq

/-- What a node knows about the base directory when it makes a plan. -/
structure Setting where
  now : Nat
  directory : Directory
  path : VPath
  keepList : List Path
  recentlyDeleted : VPath → ImageId → Bool
  /-- The downloads in the directory that are under way. -/
  downloading : Nat
  /-- The order in which a hash map hands out its items. -/
  arrange : List (Path × State) → List (Path × State)

/-- `HashMap::insert`. -/
def put (images : List (Path × State)) (path : Path) (state : State) : List (Path × State) :=
  if images.any fun image => samePath path image.1 then
    images.map fun image => if samePath path image.1 then (image.1, state) else image
  else images ++ [(path, state)]

/-- One of our signatures is as new as the signature of the peer. -/
def isOlder (old : State) (sig : SignatureEntry) : Bool :=
  old.signatures.any fun entry => decide (sig.timestamp ≤ entry.timestamp)

namespace Setting

variable (setting : Setting)

/-- The path of an image from its key on. -/
def subPath (name : List Char) : Path := setting.path.suffix.join (Path.ofText name)

/-- The path of an image. -/
def vpath (name : List Char) : Run VPath := setting.path.join (Path.ofText name)

/-- Add a remote image to the possible ones, unless ours is as good. -/
def consider (locals : Found) (images : List (Path × State)) (remote : List Char × State) :
    Run (List (Path × State)) := do
  let vpath ← setting.vpath remote.1
  if setting.recentlyDeleted vpath remote.2.image then return images
  match remote.2.signatures with
  | [] => return images
  | sig :: _ =>
      match locals.lookup remote.1 with
      | some old =>
          if old.image = remote.2.image then return images
          else if isOlder old sig then return images
          else return put images (setting.subPath remote.1) remote.2
      | none => return put images (setting.subPath remote.1) remote.2

/-- `possible_dirs`: the images there would be without a cleanup. -/
def possibleDirs (locals remote : Found) : Run (List (Path × State)) :=
  (entries remote).foldlM (setting.consider locals)
    ((entries locals).foldl (fun images entry => put images (setting.subPath entry.1) entry.2) [])

/-- The possible images that a cleanup would leave. -/
def used (locals remote : Found) : Run (List (Path × State)) := do
  let possible ← setting.possibleDirs locals remote
  if setting.directory.autoClean then do
    let sorted ← Cleanup.sortOut samePath setting.now setting.directory (setting.arrange possible)
      setting.keepList
    return sorted.used
  else return setting.arrange possible

/-- Go through the remote states and plan uploads until the throttle is reached. The
second component tells that it was not. -/
def upload (kept : List (Path × State)) :
    List (List Char × State) → Nat → Found → Run (List Planned × Bool)
  | [], _, _ => return ([], true)
  | (name, rstate) :: rest, count, locals => do
      let vpath ← setting.vpath name
      if kept.any fun image => samePath (setting.subPath name) image.1 then
        match rstate.signatures with
        | [] => upload kept rest count locals
        | sig :: _ =>
            match locals.lookup name with
            | some old =>
                if old.image = rstate.image then upload kept rest count (locals.erase name)
                else if isOlder old sig then upload kept rest count (locals.erase name)
                else if throttle ≤ count then return ([], false)
                else do
                  let (later, full) ← upload kept rest (count + 1) (locals.erase name)
                  return (⟨name, .replace ⟨vpath, rstate.image, some old.image, sig.timestamp,
                    [sig.signature]⟩⟩ :: later, full)
            | none =>
                if throttle ≤ count then return ([], false)
                else do
                  let (later, full) ← upload kept rest (count + 1) locals
                  return (⟨name, .append ⟨vpath, rstate.image, sig.timestamp, [sig.signature]⟩⟩ ::
                    later, full)
      else upload kept rest count locals

/-- The uploads a node plans, where `ordered` are the remote states from the newest to
the oldest. -/
def plan (locals remote : Found) (ordered : List (List Char × State)) :
    Run (List Planned × Bool) := do
  let kept ← setting.used locals remote
  setting.upload kept ordered setting.downloading locals

/-- A remote state that an upload is planned for, unless the throttle is reached. -/
def wanted (kept : List (Path × State)) (locals : Found) (remote : List Char × State) : Bool :=
  (kept.any fun image => samePath (setting.subPath remote.1) image.1) &&
    match remote.2.signatures with
    | [] => false
    | sig :: _ =>
        match locals.lookup remote.1 with
        | some old => !decide (old.image = remote.2.image) && !isOlder old sig
        | none => true

end Setting

/-- The latest timestamp of a state. -/
def latest (state : State) : Option Nat := (state.signatures.map SignatureEntry.timestamp).max?

/-- The remote states in an order of the sort: newest first, a state without signatures
last. -/
def Orders (remote : Found) (ordered : List (List Char × State)) : Prop :=
  ordered.Perm (entries remote) ∧
    ordered.Pairwise fun newer older => ∀ time ∈ latest older.2, ∃ later ∈ latest newer.2, time ≤ later

instance (remote : Found) (ordered : List (List Char × State)) : Decidable (Orders remote ordered) :=
  inferInstanceAs (Decidable (_ ∧ _))

section Plans

variable {setting : Setting} {locals remote : Found} {kept : List (Path × State)}
  {ordered : List (List Char × State)} {planned : List Planned} {full : Bool}

/-- The entries of a listing are what it finds. -/
theorem mem_entries {found : Found} {name : List Char} {state : State} :
    (name, state) ∈ entries found ↔ found.lookup name = some state := by
  unfold entries
  rw [List.mem_filterMap]
  constructor
  · rintro ⟨other, _, made⟩
    obtain ⟨value, isValue, same⟩ := Option.map_eq_some_iff.mp made
    obtain ⟨rfl, rfl⟩ := Prod.mk.inj same
    exact isValue
  · intro isState
    refine ⟨name, ?_, by simp [isState]⟩
    rw [Finset.mem_sort, Finmap.mem_keys, Map.mem_iff_lookup_ne_none]
    simp [isState]

/-- The entries of a listing have different names. -/
theorem nodup_names (found : Found) : ((entries found).map Prod.fst).Nodup := by
  have sublist : ((entries found).map Prod.fst).Sublist (found.keys.sort (· ≤ ·)) := by
    unfold entries
    generalize found.keys.sort (· ≤ ·) = names
    induction names with
    | nil => exact List.Sublist.slnil
    | cons name rest ih =>
        cases isState : found.lookup name with
        | none =>
            rw [List.filterMap_cons_none (by simp [isState])]
            exact ih.cons name
        | some state =>
            rw [List.filterMap_cons_some (b := (name, state)) (by simp [isState])]
            exact ih.cons_cons name
  exact sublist.nodup (Finset.sort_nodup _ _)

/-- A listing in order has the same entries. -/
theorem Orders.mem (orders : Orders remote ordered) {name : List Char} {state : State} :
    (name, state) ∈ ordered ↔ remote.lookup name = some state := by
  rw [orders.1.mem_iff, mem_entries]

theorem Orders.nodup (orders : Orders remote ordered) : (ordered.map Prod.fst).Nodup :=
  (orders.1.map Prod.fst).nodup_iff.mpr (nodup_names remote)

/-- A planned upload carries the first signature of the remote state it is made from. -/
structure Builds (setting : Setting) (rstate : State) (sig : SignatureEntry) (planned : Planned) :
    Prop where
  first : ∃ rest, rstate.signatures = sig :: rest
  action : ∃ vpath, setting.vpath planned.name = .ok vpath ∧
    (planned.action = .append ⟨vpath, rstate.image, sig.timestamp, [sig.signature]⟩ ∨
      ∃ oldImage, planned.action =
        .replace ⟨vpath, rstate.image, oldImage, sig.timestamp, [sig.signature]⟩)

/-- A replacement takes the place of a state whose image is another and whose
signatures are all older. -/
structure Supersedes (old rstate : State) (sig : SignatureEntry) : Prop where
  first : ∃ rest, rstate.signatures = sig :: rest
  image : old.image ≠ rstate.image
  older : ∀ entry ∈ old.signatures, entry.timestamp < sig.timestamp

/-- A signature is not older when it is newer than all. -/
theorem isOlder_eq_false {old : State} {sig : SignatureEntry} :
    isOlder old sig = false ↔ ∀ entry ∈ old.signatures, entry.timestamp < sig.timestamp := by
  simp [isOlder]

/-- An append is made where nothing is, and a replacement where a state is superseded. -/
def Action.FitsOver (locals : Found) (name : List Char) (rstate : State) (sig : SignatureEntry) :
    Action → Prop
  | .append _ => locals.lookup name = none
  | .replace params => ∃ old, locals.lookup name = some old ∧ params.oldImage = some old.image ∧
      Supersedes old rstate sig

/-- What fits over a listing fits over another with the same state. -/
theorem Action.FitsOver.mono {action : Action} {fewer : Found} {name : List Char} {rstate : State}
    {sig : SignatureEntry} (fits : action.FitsOver fewer name rstate sig)
    (same : fewer.lookup name = locals.lookup name) : action.FitsOver locals name rstate sig := by
  cases action with
  | append params => exact same.symm.trans fits
  | replace params =>
      obtain ⟨old, isOld, named, supersedes⟩ := fits
      exact ⟨old, same.symm.trans isOld, named, supersedes⟩

/-- What is wanted of an item depends on the state of its name only. -/
theorem wanted_congr {fewer : Found} {item : List Char × State}
    (same : fewer.lookup item.1 = locals.lookup item.1) :
    setting.wanted kept fewer item = setting.wanted kept locals item := by
  simp only [Setting.wanted, same]

/-- What one round of the loop does, where the rest of it is run with our states of other
names and some count. -/
inductive Round (setting : Setting) (kept : List (Path × State)) (locals : Found)
    (item : List Char × State) (rest : List (List Char × State)) (count : Nat) :
    List Planned → Bool → Prop where
  | pass {fewer : Found} {planned : List Planned} {full : Bool}
      (unwanted : setting.wanted kept locals item = false)
      (same : ∀ other, other ≠ item.1 → fewer.lookup other = locals.lookup other)
      (runs : setting.upload kept rest count fewer = .ok (planned, full)) :
      Round setting kept locals item rest count planned full
  | stop (wanted : setting.wanted kept locals item = true) (reached : throttle ≤ count) :
      Round setting kept locals item rest count [] false
  | issue {fewer : Found} {first : Planned} {later : List Planned} {full : Bool}
      {sig : SignatureEntry} (wanted : setting.wanted kept locals item = true)
      (below : count < throttle) (named : first.name = item.1)
      (builds : Builds setting item.2 sig first)
      (fits : first.action.FitsOver locals item.1 item.2 sig)
      (same : ∀ other, other ≠ item.1 → fewer.lookup other = locals.lookup other)
      (runs : setting.upload kept rest (count + 1) fewer = .ok (later, full)) :
      Round setting kept locals item rest count (first :: later) full

/-- One round of `upload`. -/
theorem round_of_upload {item : List Char × State} {rest : List (List Char × State)} {count : Nat}
    (uploads : setting.upload kept (item :: rest) count locals = .ok (planned, full)) :
    Round setting kept locals item rest count planned full := by
  obtain ⟨name, rstate⟩ := item
  have erased : ∀ other, other ≠ name → (locals.erase name).lookup other = locals.lookup other := by
    intro other differs
    rw [Map.lookup_erase_eq, if_neg differs]
  rw [Setting.upload] at uploads
  obtain ⟨vpath, joins, uploads⟩ := Run.bind_eq_ok_iff.mp uploads
  by_cases stays : (kept.any fun image => samePath (setting.subPath name) image.1) = true
  · rw [if_pos stays] at uploads
    cases signed : rstate.signatures with
    | nil =>
        simp only [signed] at uploads
        exact .pass (by simp [Setting.wanted, signed]) (fun _ _ => rfl) uploads
    | cons sig tail =>
        simp only [signed] at uploads
        cases isOld : locals.lookup name with
        | none =>
            simp only [isOld] at uploads
            have wanted : setting.wanted kept locals (name, rstate) = true := by
              simp only [Setting.wanted, stays, signed, isOld, Bool.and_self]
            split at uploads
            · rename_i reached
              obtain ⟨rfl, rfl⟩ := Prod.mk.inj (Except.ok.inj uploads)
              exact .stop wanted reached
            · rename_i below
              obtain ⟨⟨later, _⟩, runs, done⟩ := Run.bind_eq_ok_iff.mp uploads
              obtain ⟨rfl, rfl⟩ := Prod.mk.inj (Except.ok.inj done)
              exact .issue wanted (Nat.lt_of_not_le below) rfl
                ⟨⟨tail, signed⟩, vpath, joins, Or.inl rfl⟩ isOld (fun _ _ => rfl) runs
        | some old =>
            simp only [isOld] at uploads
            split at uploads
            · rename_i sameImage
              exact .pass (by simp [Setting.wanted, signed, isOld, sameImage]) erased uploads
            · rename_i different
              split at uploads
              · rename_i older
                exact .pass (by simp [Setting.wanted, signed, isOld, older]) erased uploads
              · rename_i newer
                have wanted : setting.wanted kept locals (name, rstate) = true := by
                  simp only [Setting.wanted, stays, signed, isOld, different, newer, decide_false,
                    Bool.not_false, Bool.and_self]
                split at uploads
                · rename_i reached
                  obtain ⟨rfl, rfl⟩ := Prod.mk.inj (Except.ok.inj uploads)
                  exact .stop wanted reached
                · rename_i below
                  obtain ⟨⟨later, _⟩, runs, done⟩ := Run.bind_eq_ok_iff.mp uploads
                  obtain ⟨rfl, rfl⟩ := Prod.mk.inj (Except.ok.inj done)
                  refine .issue wanted (Nat.lt_of_not_le below) rfl
                    ⟨⟨tail, signed⟩, vpath, joins, Or.inr ⟨_, rfl⟩⟩ ?_ erased runs
                  exact ⟨old, isOld, rfl, ⟨tail, signed⟩, different,
                    isOlder_eq_false.mp (by simpa using newer)⟩
  · rw [if_neg stays] at uploads
    exact .pass (by simp [Setting.wanted, stays]) (fun _ _ => rfl) uploads

/-- Every upload that is planned is made from a remote state, and fits over ours. -/
theorem mem_upload {count : Nat}
    (uploads : setting.upload kept ordered count locals = .ok (planned, full))
    (nodup : (ordered.map Prod.fst).Nodup) {item : Planned} (member : item ∈ planned) :
    ∃ rstate sig, (item.name, rstate) ∈ ordered ∧ Builds setting rstate sig item ∧
      item.action.FitsOver locals item.name rstate sig := by
  induction ordered generalizing count locals planned full with
  | nil =>
      obtain ⟨rfl, rfl⟩ := Prod.mk.inj (Except.ok.inj uploads)
      simp at member
  | cons remote rest ih =>
      obtain ⟨fresh, nodup⟩ := List.nodup_cons.mp nodup
      have later {count : Nat} {fewer : Found} {items : List Planned} {full : Bool}
          (runs : setting.upload kept rest count fewer = .ok (items, full))
          (same : ∀ other, other ≠ remote.1 → fewer.lookup other = locals.lookup other)
          (isLater : item ∈ items) :
          ∃ rstate' sig, (item.name, rstate') ∈ remote :: rest ∧
            Builds setting rstate' sig item ∧
            item.action.FitsOver locals item.name rstate' sig := by
        obtain ⟨rstate', sig, among, builds, fits⟩ := ih runs nodup isLater
        have differs : item.name ≠ remote.1 := by
          intro isName
          exact fresh (List.mem_map.mpr ⟨_, among, isName⟩)
        exact ⟨rstate', sig, List.mem_cons_of_mem _ among, builds, fits.mono (same _ differs)⟩
      cases round_of_upload uploads with
      | pass _ same runs => exact later runs same member
      | stop _ _ => simp at member
      | issue _ _ named builds fits same runs =>
          rcases List.mem_cons.mp member with rfl | isLater
          · rw [named]
            exact ⟨remote.2, _, List.mem_cons_self, builds, fits⟩
          · exact later runs same isLater

/-- The uploads that are planned are those of the wanted states, up to the throttle. -/
theorem names_upload {count : Nat}
    (uploads : setting.upload kept ordered count locals = .ok (planned, full))
    (nodup : (ordered.map Prod.fst).Nodup) :
    planned.map Planned.name =
        ((ordered.filter (setting.wanted kept locals)).take (throttle - count)).map Prod.fst ∧
      (full = true → (ordered.filter (setting.wanted kept locals)).length ≤ throttle - count) := by
  induction ordered generalizing count locals planned full with
  | nil =>
      obtain ⟨rfl, rfl⟩ := Prod.mk.inj (Except.ok.inj uploads)
      simp
  | cons remote rest ih =>
      obtain ⟨fresh, nodup⟩ := List.nodup_cons.mp nodup
      have sameWanted {fewer : Found}
          (same : ∀ other, other ≠ remote.1 → fewer.lookup other = locals.lookup other) :
          rest.filter (setting.wanted kept fewer) = rest.filter (setting.wanted kept locals) := by
        apply List.filter_congr
        intro item member
        exact wanted_congr (same _ fun isName => fresh (List.mem_map.mpr ⟨item, member, isName⟩))
      cases round_of_upload uploads with
      | pass unwanted same runs =>
          rw [List.filter_cons_of_neg (by simp [unwanted]), ← sameWanted same]
          exact ih runs nodup
      | stop _ reached => simp [Nat.sub_eq_zero_of_le reached]
      | issue wanted below named _ _ same runs =>
          obtain ⟨names, upTo⟩ := ih runs nodup
          have oneMore : throttle - count = (throttle - (count + 1)) + 1 := by omega
          rw [List.filter_cons_of_pos wanted, oneMore, List.take_succ_cons, ← sameWanted same]
          constructor
          · rw [List.map_cons, List.map_cons, named, names]
          · intro isFull
            rw [List.length_cons]
            exact Nat.succ_le_succ (upTo isFull)

/-- While the throttle is not reached, every state of ours that is superseded is planned
to be replaced. -/
theorem mem_upload_of_supersedes {count : Nat}
    (uploads : setting.upload kept ordered count locals = .ok (planned, true))
    (nodup : (ordered.map Prod.fst).Nodup) {name : List Char} {rstate old : State}
    {sig : SignatureEntry} (among : (name, rstate) ∈ ordered)
    (stays : (kept.any fun image => samePath (setting.subPath name) image.1) = true)
    (isOld : locals.lookup name = some old) (supersedes : Supersedes old rstate sig) :
    ∃ params, ⟨name, .replace params⟩ ∈ planned := by
  obtain ⟨tail, signed⟩ := supersedes.first
  have wanted : setting.wanted kept locals (name, rstate) = true := by
    simp only [Setting.wanted, stays, signed, isOld, supersedes.image,
      isOlder_eq_false.mpr supersedes.older, decide_false, Bool.not_false, Bool.and_self]
  obtain ⟨names, upTo⟩ := names_upload uploads nodup
  rw [List.take_of_length_le (upTo rfl)] at names
  have isPlanned : name ∈ planned.map Planned.name := by
    rw [names]
    exact List.mem_map.mpr ⟨_, List.mem_filter.mpr ⟨among, wanted⟩, rfl⟩
  obtain ⟨⟨_, action⟩, member, rfl⟩ := List.mem_map.mp isPlanned
  obtain ⟨_, _, _, _, fits⟩ := mem_upload uploads nodup member
  cases action with
  | append params => cases isOld.symm.trans fits
  | replace params => exact ⟨params, member⟩

/-- The loop ends when all remote names can be joined. -/
theorem returns_upload {count : Nat}
    (joins : ∀ item ∈ ordered, (setting.vpath item.1).Returns) :
    (setting.upload kept ordered count locals).Returns := by
  induction ordered generalizing count locals with
  | nil => exact Run.returns_pure _
  | cons item rest ih =>
      obtain ⟨vpath, joined⟩ := joins item List.mem_cons_self
      have later (count : Nat) (fewer : Found) : (setting.upload kept rest count fewer).Returns :=
        ih fun other member => joins other (List.mem_cons_of_mem _ member)
      have issues (count : Nat) (fewer : Found) (first : Planned) :
          (setting.upload kept rest count fewer >>= fun later =>
            (pure (first :: later.1, later.2) : Run (List Planned × Bool))).Returns := by
        obtain ⟨made, isMade⟩ := later count fewer
        rw [isMade]
        exact Run.returns_pure _
      rw [Setting.upload, joined, Run.ok_bind]
      split
      · split
        · exact later _ _
        · split
          · split
            · exact later _ _
            · split
              · exact later _ _
              · split
                · exact Run.returns_pure _
                · exact issues _ _ _
          · split
            · exact Run.returns_pure _
            · exact issues _ _ _
      · exact later _ _

-- What is possible stays possible when an image is put in. -/
theorem any_put {images : List (Path × State)} {path other : Path} {state : State}
    (present : (images.any fun image => samePath path image.1) = true ∨
      samePath path other = true) :
    ((put images other state).any fun image => samePath path image.1) = true := by
  unfold put
  rw [List.any_eq_true] at present ⊢
  split
  · rename_i known
    obtain ⟨image, member, same⟩ : ∃ image ∈ images, samePath path image.1 = true := by
      rcases present with inside | same
      · exact inside
      · obtain ⟨image, member, known⟩ := List.any_eq_true.mp known
        refine ⟨image, member, ?_⟩
        simp only [samePath, beq_iff_eq] at same known ⊢
        exact same.trans known
    refine ⟨_, List.mem_map_of_mem member, ?_⟩
    split
    · exact same
    · exact same
  · rcases present with ⟨image, member, same⟩ | same
    · exact ⟨image, List.mem_append_left _ member, same⟩
    · exact ⟨_, List.mem_append_right _ (List.mem_singleton.mpr rfl), same⟩

/-- One round of the first loop puts in the path of the remote image, which was not deleted,
or nothing. -/
theorem consider_cases {images after : List (Path × State)} {item : List Char × State}
    (considers : setting.consider locals images item = .ok after) :
    ∃ vpath, setting.vpath item.1 = .ok vpath ∧
      (after = images ∨ (setting.recentlyDeleted vpath item.2.image = false ∧
        after = put images (setting.subPath item.1) item.2)) := by
  obtain ⟨vpath, joins, considers⟩ := Run.bind_eq_ok_iff.mp considers
  refine ⟨vpath, joins, ?_⟩
  split at considers
  · exact Or.inl (Except.ok.inj considers).symm
  · rename_i present
    have isPut (done : (pure (put images (setting.subPath item.1) item.2) : Run _) = .ok after) :
        after = images ∨ (setting.recentlyDeleted vpath item.2.image = false ∧
          after = put images (setting.subPath item.1) item.2) :=
      Or.inr ⟨by simpa using present, (Except.ok.inj done).symm⟩
    split at considers
    · exact Or.inl (Except.ok.inj considers).symm
    · split at considers
      · split at considers
        · exact Or.inl (Except.ok.inj considers).symm
        · split at considers
          · exact Or.inl (Except.ok.inj considers).symm
          · exact isPut considers
      · exact isPut considers

/-- Considering an item loses no image. -/
theorem any_consider {images after : List (Path × State)} {item : List Char × State}
    (considers : setting.consider locals images item = .ok after) {path : Path}
    (present : (images.any fun image => samePath path image.1) = true) :
    (after.any fun image => samePath path image.1) = true := by
  obtain ⟨_, _, rfl | ⟨_, rfl⟩⟩ := consider_cases considers
  · exact present
  · exact any_put (Or.inl present)

/-- Considering many items loses no image. -/
theorem any_foldlM_consider {items : List (List Char × State)} {images after : List (Path × State)}
    (considers : items.foldlM (setting.consider locals) images = .ok after) {path : Path}
    (present : (images.any fun image => samePath path image.1) = true) :
    (after.any fun image => samePath path image.1) = true := by
  refine Run.inv_of_foldlM (fun images => (images.any fun image => samePath path image.1) = true)
    considers present ?_
  exact fun item _ images next considered present => any_consider considered present

theorem any_foldl_put {items : List (List Char × State)} {images : List (Path × State)} {path : Path}
    (present : (images.any fun image => samePath path image.1) = true ∨
      ∃ item ∈ items, samePath path (setting.subPath item.1) = true) :
    ((items.foldl (fun images entry => put images (setting.subPath entry.1) entry.2) images).any
      fun image => samePath path image.1) = true := by
  induction items generalizing images with
  | nil => simpa using present
  | cons item rest ih =>
      rw [List.foldl_cons]
      apply ih
      rcases present with inside | ⟨other, member, same⟩
      · exact Or.inl (any_put (Or.inl inside))
      · rcases List.mem_cons.mp member with rfl | isLater
        · exact Or.inl (any_put (Or.inr same))
        · exact Or.inr ⟨other, isLater, same⟩

/-- Without a cleanup every image of ours stays. -/
theorem any_used (keeps : setting.directory.autoClean = false)
    (arranges : ∀ images, (setting.arrange images).Perm images)
    (uses : setting.used locals remote = .ok kept) {name : List Char} {old : State}
    (isOld : locals.lookup name = some old) :
    (kept.any fun image => samePath (setting.subPath name) image.1) = true := by
  obtain ⟨possible, considers, uses⟩ := Run.bind_eq_ok_iff.mp uses
  rw [if_neg (by simp [keeps])] at uses
  rw [← Except.ok.inj uses, (arranges possible).any_eq]
  refine any_foldlM_consider considers (any_foldl_put (Or.inr ⟨(name, old), ?_, ?_⟩))
  · exact mem_entries.mpr isOld
  · simp [samePath]

theorem entries_singleton (name : List Char) (state : State) :
    entries (Finmap.singleton name state) = [(name, state)] := by
  unfold entries
  rw [Finmap.keys_singleton, Finset.sort_singleton]
  simp

theorem orders_singleton (name : List Char) (state : State) :
    Orders (Finmap.singleton name state) [(name, state)] :=
  ⟨entries_singleton name state ▸ List.Perm.refl _, List.pairwise_singleton _ _⟩

/-- What is planned without a cleanup when the peer holds one image. -/
theorem plan_singleton {images : List (Path × State)}
    (keeps : setting.directory.autoClean = false)
    (arranges : ∀ images, setting.arrange images = images)
    (ours : (entries locals).foldl
      (fun images entry => put images (setting.subPath entry.1) entry.2) [] = images)
    (name : List Char) (remote : State) :
    setting.plan locals (Finmap.singleton name remote) [(name, remote)] =
      (do
        let kept ← setting.consider locals images (name, remote)
        setting.upload kept [(name, remote)] setting.downloading locals) := by
  unfold Setting.plan Setting.used Setting.possibleDirs
  rw [ours, entries_singleton]
  simp only [List.foldlM_cons, List.foldlM_nil, bind_pure, keeps, Bool.false_eq_true, if_false]
  cases setting.consider locals images (name, remote) with
  | error _ => rfl
  | ok _ => simp [arranges]

end Plans

/-! A base directory `/k` in which both nodes hold at most one image, `a`. -/

namespace Sample

open Metadata.Sample (image signature)

/-- The setting of the examples. -/
def setting : Setting where
  now := 0
  directory := Metadata.Sample.directory false
  path := Metadata.Sample.base
  keepList := []
  recentlyDeleted := fun _ _ => false
  downloading := 0
  arrange := id

/-- An image with its signatures. -/
def state (byte : UInt8) (times : List Nat) : State :=
  ⟨image byte, times.map fun time => ⟨time, signature byte⟩⟩

/-- The listing of a directory with one image. -/
def holding (state : State) : Found := Finmap.singleton "a".toList state

/-- The same listing in order. -/
def listed (state : State) : List (List Char × State) := [("a".toList, state)]

theorem entries_holding (state : State) : entries (holding state) = listed state :=
  entries_singleton _ _

theorem orders (state : State) : Orders (holding state) (listed state) := orders_singleton _ _

theorem plan_holding (ours remote : State) :
    setting.plan (holding ours) (holding remote) (listed remote) =
      (do
        let kept ← setting.consider (holding ours) [(setting.subPath "a".toList, ours)]
          ("a".toList, remote)
        setting.upload kept (listed remote) 0 (holding ours)) := by
  refine plan_singleton rfl (fun _ => rfl) ?_ _ _
  rw [entries_holding]
  rfl

end Sample

section Latest

/-- The latest time is that of a signature. -/
theorem latest_mem {state : State} {time : Nat} (isLatest : latest state = some time) :
    ∃ entry ∈ state.signatures, entry.timestamp = time := by
  have member : time ∈ state.signatures.map SignatureEntry.timestamp := List.max?_mem isLatest
  obtain ⟨entry, among, same⟩ := List.mem_map.mp member
  exact ⟨entry, among, same⟩

/-- No signature is later than the latest time. -/
theorem le_latest {state : State} {time : Nat} (isLatest : latest state = some time)
    {entry : SignatureEntry} (member : entry ∈ state.signatures) : entry.timestamp ≤ time := by
  have bound := (List.max?_eq_some_iff.mp isLatest).2
  exact bound _ (List.mem_map_of_mem member)

theorem timestamp_le_of_le {first second : SignatureEntry} (le : first ≤ second) :
    first.timestamp ≤ second.timestamp := by
  have ranked : first.rank ≤ second.rank := le
  rcases (Prod.Lex.le_iff.mp ranked) with earlier | ⟨same, _⟩
  · exact Nat.le_of_lt earlier
  · exact Nat.le_of_eq same

/-- The first of a sorted list of signatures is the oldest. -/
theorem first_le_of_sorted {first : SignatureEntry} {rest : List SignatureEntry}
    (sorted : (first :: rest).SortedLE) {entry : SignatureEntry} (member : entry ∈ first :: rest) :
    first.timestamp ≤ entry.timestamp := by
  rcases List.mem_cons.mp member with rfl | later
  · exact Nat.le_refl _
  · exact timestamp_le_of_le ((List.pairwise_cons.mp sorted.pairwise).1 entry later)

/-- The node plans to replace its image under this name. -/
def Replaces (planned : List Planned) (name : List Char) : Prop :=
  ∃ params, ⟨name, .replace params⟩ ∈ planned

/-- When both nodes hold another image under a name and make full plans, the older one
is replaced and the newer one is not exactly when all signatures of the newer one are
later than the latest of the older one. -/
theorem latest_wins_iff {setting setting' : Setting} {locals remote locals' remote' : Found}
    {ordered ordered' : List (List Char × State)} {planned planned' : List Planned}
    {name : List Char} {left right : State} {older newer : Nat}
    (plans : setting.plan locals remote ordered = .ok (planned, true))
    (plans' : setting'.plan locals' remote' ordered' = .ok (planned', true))
    (orders : Orders remote ordered) (orders' : Orders remote' ordered')
    (arranges : ∀ images, (setting.arrange images).Perm images)
    (keeps : setting.directory.autoClean = false)
    (isLeft : locals.lookup name = some left) (seesRight : remote.lookup name = some right)
    (isRight : locals'.lookup name = some right) (seesLeft : remote'.lookup name = some left)
    (different : left.image ≠ right.image) (sorted : left.signatures.SortedLE)
    (sorted' : right.signatures.SortedLE) (isOlder : latest left = some older)
    (isNewer : latest right = some newer) (before : older < newer) :
    (Replaces planned name ∧ ¬ Replaces planned' name) ↔
      ∀ entry ∈ right.signatures, older < entry.timestamp := by
  obtain ⟨kept, uses, uploads⟩ := Run.bind_eq_ok_iff.mp plans
  obtain ⟨kept', _, uploads'⟩ := Run.bind_eq_ok_iff.mp plans'
  obtain ⟨last, lastMember, isLast⟩ := latest_mem isOlder
  constructor
  · rintro ⟨⟨params, member⟩, _⟩ entry isEntry
    obtain ⟨rstate, sig, among, _, old, isOld, _, supersedes⟩ :=
      mem_upload uploads orders.nodup member
    obtain rfl := Option.some.inj ((orders.mem.mp among).symm.trans seesRight)
    obtain rfl := Option.some.inj (isOld.symm.trans isLeft)
    obtain ⟨rest, signed⟩ := supersedes.first
    rw [signed] at sorted' isEntry
    calc older = last.timestamp := isLast.symm
      _ < sig.timestamp := supersedes.older last lastMember
      _ ≤ entry.timestamp := first_le_of_sorted sorted' isEntry
  · intro later
    have first : ∃ sig rest, right.signatures = sig :: rest := by
      obtain ⟨entry, member, _⟩ := latest_mem isNewer
      exact List.exists_cons_of_ne_nil (List.ne_nil_of_mem member)
    obtain ⟨sig, rest, signed⟩ := first
    constructor
    · have supersedes : Supersedes left right sig := by
        refine ⟨⟨rest, signed⟩, different, fun entry member => ?_⟩
        have isFirst : sig ∈ right.signatures := by simp [signed]
        have upTo := le_latest isOlder member
        have after := later sig isFirst
        omega
      exact mem_upload_of_supersedes uploads orders.nodup (orders.mem.mpr seesRight)
        (any_used keeps arranges uses isLeft) isLeft supersedes
    · rintro ⟨params, member⟩
      obtain ⟨rstate, sig', among, _, old, isOld, _, supersedes⟩ :=
        mem_upload uploads' orders'.nodup member
      obtain rfl := Option.some.inj ((orders'.mem.mp among).symm.trans seesLeft)
      obtain rfl := Option.some.inj (isOld.symm.trans isRight)
      obtain ⟨newest, isMember, isNewest⟩ := latest_mem isNewer
      obtain ⟨rest', signed'⟩ := supersedes.first
      have newerThan := supersedes.older newest isMember
      have upTo : sig'.timestamp ≤ older := le_latest isOlder (by simp [signed'])
      omega

/-- An image whose signatures are all newer takes over. -/
theorem latest_wins_newer :
    let left := Sample.state 1 [4, 6]
    let right := Sample.state 2 [7, 9]
    ∃ planned planned',
      Sample.setting.plan (Sample.holding left) (Sample.holding right) (Sample.listed right) =
        .ok (planned, true) ∧
      Sample.setting.plan (Sample.holding right) (Sample.holding left) (Sample.listed left) =
        .ok (planned', true) ∧
      Replaces planned "a".toList ∧ ¬ Replaces planned' "a".toList := by
  intro left right
  have plans := Sample.plan_holding left right
  have plans' := Sample.plan_holding right left
  refine ⟨_, _, plans, plans', ?_⟩
  exact (latest_wins_iff plans plans' (Sample.orders _) (Sample.orders _)
    (fun _ => List.Perm.refl _) rfl rfl rfl rfl rfl (by decide) (by decide) (by decide) rfl rfl
    (by decide)).mpr (by decide)

/-- The image on the right is the newer one, by its second signature. Its first is
older than the only one on the left, and neither node replaces its own. -/
theorem latest_stays_apart :
    let left := Sample.state 1 [6]
    let right := Sample.state 2 [5, 7]
    Sample.setting.plan (Sample.holding left) (Sample.holding right) (Sample.listed right) =
        .ok ([], true) ∧
      Sample.setting.plan (Sample.holding right) (Sample.holding left) (Sample.listed left) =
        .ok ([], true) ∧
      left.image ≠ right.image ∧ left.signatures.SortedLE ∧ right.signatures.SortedLE ∧
      latest left = some 6 ∧ latest right = some 7 := by
  intro left right
  refine ⟨?_, ?_, by decide⟩
  · rw [Sample.plan_holding]
    rfl
  · rw [Sample.plan_holding]
    rfl

end Latest

section Passing

open Metadata (Env KeyFiles checkKeys readUploadKeys)

/-- The entry is good for the keys at this path. -/
def entryPasses (env : Env) (keys : List PublicKey) (vpath : VPath) (image : ImageId)
    (entry : SignatureEntry) : Bool :=
  verify env.ed25519 ⟨vpath.path.text, image.bytes, entry.timestamp⟩ entry.signature keys

/-- The keys are read, and one of all entries of the state is good for them. -/
def FullListPasses (env : Env) (files : KeyFiles) (directory : Directory) (vpath : VPath)
    (state : State) : Prop :=
  ∃ keys, readUploadKeys env files directory = .ok keys ∧
    ∃ entry ∈ state.signatures, entryPasses env keys vpath state.image entry = true

/-- The request passes `check_keys`. -/
def Action.Passes (env : Env) (files : KeyFiles) (directory : Directory) : Action → Prop
  | .append params => checkKeys env files params.sigData params.signatures directory = .ok true
  | .replace params => checkKeys env files params.sigData params.signatures directory = .ok true

/-- Signatures are checked against the keys that are read. -/
theorem checkKeys_single {env : Env} {files : KeyFiles} {directory : Directory} {data : SigData}
    {signature : Signature} {keys : List PublicKey}
    (read : readUploadKeys env files directory = .ok keys) :
    checkKeys env files data [signature] directory = .ok true ↔
      verify env.ed25519 data signature keys = true := by
  simp [checkKeys, read]

/-- A request that reconciliation builds from a state whose full list passes, passes
exactly when the first entry of the list does. -/
theorem reconciled_passes_iff {env : Env} {files : KeyFiles} {setting : Setting}
    {locals remote : Found} {ordered : List (List Char × State)} {planned : List Planned} {full : Bool}
    (plans : setting.plan locals remote ordered = .ok (planned, full))
    (orders : Orders remote ordered) {item : Planned} (member : item ∈ planned) {rstate : State}
    (isRemote : remote.lookup item.name = some rstate) {vpath : VPath}
    (joins : setting.vpath item.name = .ok vpath)
    (passes : FullListPasses env files setting.directory vpath rstate) :
    item.action.Passes env files setting.directory ↔
      ∃ keys first, readUploadKeys env files setting.directory = .ok keys ∧
        rstate.signatures.head? = some first ∧
        entryPasses env keys vpath rstate.image first = true := by
  obtain ⟨kept, _, uploads⟩ := Run.bind_eq_ok_iff.mp plans
  obtain ⟨other, sig, among, ⟨⟨rest, signed⟩, vpath', joins', built⟩, _⟩ :=
    mem_upload uploads orders.nodup member
  obtain rfl := Option.some.inj ((orders.mem.mp among).symm.trans isRemote)
  obtain rfl := Except.ok.inj (joins'.symm.trans joins)
  obtain ⟨keys, read, _⟩ := passes
  have checked : item.action.Passes env files setting.directory ↔
      entryPasses env keys vpath' other.image sig = true := by
    rcases built with isAppend | ⟨oldImage, isReplace⟩
    · rw [isAppend]
      exact checkKeys_single read
    · rw [isReplace]
      exact checkKeys_single read
  rw [checked]
  constructor
  · intro good
    exact ⟨keys, sig, read, by simp [signed], good⟩
  · rintro ⟨keys', first, read', isFirst, good⟩
    obtain rfl := Except.ok.inj (read'.symm.trans read)
    rw [signed] at isFirst
    obtain rfl := Option.some.inj isFirst
    exact good

namespace Sample

open Metadata.Sample (image signature keys directory env)

/-- A node whose key is good for one signature only. -/
def onlyEnv (signature : Signature) : Env :=
  { env false with ed25519 := fun _ _ bytes => decide (bytes = signature.bytes) }

/-- The state that two accepted appends leave. -/
def twice : State := ⟨image 1, [⟨5, signature 1⟩, ⟨6, signature 2⟩]⟩

/-- What a node plans that does not hold the image. -/
def plans : Run (List Planned × Bool) := setting.plan ∅ (holding twice) (listed twice)

/-- The plan of the example. -/
theorem plans_append : plans =
    .ok ([⟨"a".toList, .append ⟨Metadata.Sample.path, image 1, 5, [signature 1]⟩⟩], true) := by
  have none : (entries (∅ : Found)).foldl
      (fun images entry => put images (setting.subPath entry.1) entry.2) [] = [] := by simp [entries]
  exact plan_singleton rfl (fun _ => rfl) none _ _

theorem fullListPasses {signature : Signature}
    (among : ∃ entry ∈ twice.signatures, entry.signature = signature) :
    FullListPasses (onlyEnv signature) keys (directory false) Metadata.Sample.path twice := by
  obtain ⟨entry, member, rfl⟩ := among
  refine ⟨[.ed25519 []], rfl, entry, member, ?_⟩
  simp [entryPasses, verify, onlyEnv]

end Sample

open Metadata.Sample (image signature keys directory env)

/-- A node that trusts the first signer takes over the image. -/
theorem reconciled_passes_first :
    ∃ item : Planned, Sample.plans = .ok ([item], true) ∧
      item.action.Passes (Sample.onlyEnv (signature 1)) keys (directory false) := by
  refine ⟨_, Sample.plans_append, ?_⟩
  have plans : Sample.setting.plan ∅ (Sample.holding Sample.twice) (Sample.listed Sample.twice) = _ :=
    Sample.plans_append
  have passes : FullListPasses (Sample.onlyEnv (signature 1)) keys Sample.setting.directory _ _ :=
    Sample.fullListPasses ⟨_, List.mem_cons_self, rfl⟩
  refine (reconciled_passes_iff plans (Sample.orders _) List.mem_cons_self rfl rfl passes).mpr ?_
  exact ⟨[.ed25519 []], _, rfl, rfl, by simp [entryPasses, verify, Sample.onlyEnv]⟩

/-- A node that trusts the second signer only does not get the image, though the state
it is offered holds a signature that is good for its key. -/
theorem reconciled_refused :
    ∃ item : Planned, Sample.plans = .ok ([item], true) ∧
      (((Metadata.machine (env false)).play (.new .empty .empty)
        [Metadata.Sample.append (image 1), Metadata.Sample.appendAgain (image 1),
          Metadata.Sample.commit]).2.record Metadata.Sample.spot).state =
        some (.state Sample.twice) ∧
      FullListPasses (Sample.onlyEnv (signature 2)) keys (directory false) Metadata.Sample.path
        Sample.twice ∧
      ¬ item.action.Passes (Sample.onlyEnv (signature 2)) keys (directory false) := by
  refine ⟨_, Sample.plans_append, by decide, Sample.fullListPasses (by simp [Sample.twice]), ?_⟩
  intro passes
  have read : readUploadKeys (Sample.onlyEnv (signature 2)) keys (directory false) =
      .ok [.ed25519 []] := rfl
  have verified := (checkKeys_single read).mp passes
  simp only [verify, Sample.onlyEnv, List.any_cons, List.any_nil, Bool.or_false,
    decide_eq_true_eq] at verified
  revert verified
  decide

end Passing

end Reconciliation

end Ciruela
