import Ciruela.Daemon.Metadata.Meta

/-!
# How a path is written

Virtual paths are compared by their components, and a signature covers their text.
`PassAlike` is what the comparison promises about the signature check; it holds for
two paths exactly when they are one text.
-/

namespace Ciruela

open Foundation

namespace Metadata

/-- Requests that differ only in their path pass the check alike, whatever the keys, the
signatures and the signature scheme are. -/
def PassAlike (first second : VPath) : Prop :=
  ∀ (env : Env) (files : KeyFiles) (directory : Directory) (image : ImageId) (timestamp : Nat)
    (signatures : List Signature) (oldImage : Option ImageId),
    (checkKeys env files (AppendDir.mk first image timestamp signatures).sigData signatures
        directory = .ok true ↔
      checkKeys env files (AppendDir.mk second image timestamp signatures).sigData signatures
        directory = .ok true) ∧
    (checkKeys env files (ReplaceDir.mk first image oldImage timestamp signatures).sigData signatures
        directory = .ok true ↔
      checkKeys env files (ReplaceDir.mk second image oldImage timestamp signatures).sigData
        signatures directory = .ok true)

/-- A scheme in which every signature is good for one text and no other. -/
def Sample.textEnv (text : List Char) : Env :=
  { Sample.env false with ed25519 := fun data _ _ => decide (data.path = text) }

/-- The key of the example signs one text. -/
theorem Sample.checkKeys_textEnv (text : List Char) (data : SigData) (signature : Signature) :
    checkKeys (textEnv text) keys data [signature] (directory false) =
      .ok (decide (data.path = text)) := by
  have read : readUploadKeys (textEnv text) keys (directory false) = .ok [.ed25519 []] := rfl
  unfold checkKeys
  rw [read]
  simp [verify, textEnv]

/-- Paths that pass alike have the same text. -/
theorem PassAlike.text_eq {first second : VPath} (alike : PassAlike first second) :
    first.path.text = second.path.text := by
  have passes := (alike (Sample.textEnv first.path.text) Sample.keys (Sample.directory false)
    (Sample.image 1) 5 [Sample.signature 1] none).1
  rw [Sample.checkKeys_textEnv, Sample.checkKeys_textEnv] at passes
  have isFirst : decide (first.path.text = first.path.text) = true := decide_eq_true rfl
  have isSecond := Except.ok.inj (passes.mp (congrArg Except.ok isFirst))
  exact (of_decide_eq_true isSecond).symm

/-- Two ways to write a path are the same to the signature check exactly when they are
the same text. -/
theorem passAlike_iff (first second : VPath) :
    PassAlike first second ↔ first.path.text = second.path.text := by
  constructor
  · exact PassAlike.text_eq
  · intro same env files directory image timestamp signatures oldImage
    simp only [AppendDir.sigData, ReplaceDir.sigData, same, and_self]

/-- A path that a client sends as `/k//a` is the one that another node puts together
from `/k` and `a`, and a signature that is good for one is not good for the other. -/
theorem rebuilt_path_not_alike :
    ∃ sent base rebuilt : VPath, VPath.deserialize "/k//a".toList = some sent ∧
      VPath.deserialize "/k".toList = some base ∧ base.join (Path.ofText "a".toList) = .ok rebuilt ∧
      VPath.checkPath rebuilt.path = true ∧ sent.place = rebuilt.place ∧
      ¬ PassAlike sent rebuilt := by
  let sent := (VPath.deserialize "/k//a".toList).get (by decide)
  let rebuilt := (VPath.deserialize "/k/a".toList).get (by decide)
  refine ⟨sent, Sample.base, rebuilt, by simp [sent], by simp [Sample.base], by decide, by decide,
    by decide, ?_⟩
  intro alike
  have differs : sent.path.text ≠ rebuilt.path.text := by decide
  exact differs alike.text_eq

end Metadata

end Ciruela
