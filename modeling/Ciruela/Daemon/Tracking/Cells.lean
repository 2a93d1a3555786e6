import Ciruela.Daemon.Tracking.Progress

/-!
# What peers are told of a download

The mask of a download and the mark that it is stalled are atomic cells: the tasks of the
download set them, and gossip reads them whenever it lists the downloads. After some of the
changes the peers are let know at once.
-/

namespace Ciruela

open Foundation

namespace Tracking

/-- The cells of a `Downloading` that its peers are told of. -/
structure Cells where
  mask : Mask
  stalled : Bool
deriving DecidableEq

/-- What a download does to its cells. -/
inductive CellOp where
  /-- `Downloading::index_fetched`. -/
  | indexFetched
  /-- `Downloading::fill_blocks`. -/
  | fillBlocks (index : IndexData) (hardlinks : List Path)
  /-- `Downloading::report_block`. -/
  | reportBlock
  /-- `Downloading::report_slice`. -/
  | reportSlice (slice : Nat)
  /-- `Downloading::notify_stalled`. -/
  | notifyStalled

/-- Whether `Peers::notify_progress` is called right after the change. -/
def CellOp.tells : CellOp → Bool
  | .indexFetched => true
  | .reportSlice _ => true
  | _ => false

namespace Cells

/-- The cells as `Tracking::fetch_dir` makes them. -/
def new : Cells := ⟨⟨0⟩, false⟩

/-- One operation on the cells. -/
def exec (cells : Cells) : CellOp → Option Cells
  | .indexFetched => some { cells with stalled := false }
  | .fillBlocks index hardlinks => do
      let (_, mask) ← (Progress.fillBlocks index hardlinks).toOption
      return { cells with mask := mask }
  | .reportBlock => some { cells with stalled := false }
  | .reportSlice slice => some { cells with mask := cells.mask.setFetched slice }
  | .notifyStalled => some { cells with stalled := true }

end Cells

end Tracking

end Ciruela
