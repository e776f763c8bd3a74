/-
# `RealBoy.Lib.Latest` — the latest word of a history

`latest f l` is what the last entry of the history `l` that says anything, says;
`f` is what an entry says, if it does.  A history grows at its end
(`latest_concat`).  Where several voices are heard as one, the latest word is
the latest of one of them (`exists_latest`): so whoever keeps one word for all of
them keeps that of the last that spoke.
-/
import Mathlib.Data.List.Induction

namespace History

variable {α β ι : Type}

/-- The last thing said in a history. -/
def latest (f : α → Option β) (l : List α) : Option β := (l.filterMap f).getLast?

@[simp] theorem latest_nil (f : α → Option β) : latest f [] = none := rfl

theorem latest_concat (f : α → Option β) (l : List α) (a : α) :
    latest f (l ++ [a]) = (f a).or (latest f l) := by
  cases h : f a with
  | none => simp [latest, h]
  | some b => simp [latest, h]

theorem latest_concat_none {f : α → Option β} {a : α} (h : f a = none) (l : List α) :
    latest f (l ++ [a]) = latest f l := by
  simp [latest_concat, h]

theorem latest_concat_some {f : α → Option β} {a : α} {b : β} (h : f a = some b) (l : List α) :
    latest f (l ++ [a]) = some b := by
  simp [latest_concat, h]

/-- Entries that say nothing. -/
theorem latest_append_none {f : α → Option β} {l' : List α} (h : ∀ a ∈ l', f a = none)
    (l : List α) : latest f (l ++ l') = latest f l := by
  have hnil : l'.filterMap f = [] := List.filterMap_eq_nil_iff.mpr h
  simp [latest, hnil]

/-- Entries of which some speak, and all that do say the same. -/
theorem latest_of_agree {f : α → Option β} {l : List α} {b : β} (hsome : ∃ a ∈ l, f a = some b)
    (hagree : ∀ a ∈ l, ∀ b', f a = some b' → b' = b) : latest f l = some b := by
  obtain ⟨a, ha, hb⟩ := hsome
  have hmem : b ∈ l.filterMap f := List.mem_filterMap.mpr ⟨a, ha, hb⟩
  have hne : l.filterMap f ≠ [] := List.ne_nil_of_mem hmem
  rw [latest, List.getLast?_eq_some_getLast hne, Option.some_inj]
  obtain ⟨a', ha', hlast⟩ := List.mem_filterMap.mp (List.getLast_mem hne)
  exact hagree a' ha' _ hlast

/-- **One word kept for many voices** is the latest word of one of them. -/
theorem exists_latest {f : α → Option β} {g : ι → α → Option β} {ks : List ι}
    (hsub : ∀ i ∈ ks, ∀ a, f a = none → g i a = none)
    (hcover : ∀ a b, f a = some b → ∃ i ∈ ks, g i a = some b) {l : List α} {b : β}
    (h : latest f l = some b) : ∃ i ∈ ks, latest (g i) l = some b := by
  induction l using List.reverseRecOn with
  | nil => cases h
  | append_singleton l a ih =>
      cases ha : f a with
      | none =>
          rw [latest_concat_none ha] at h
          obtain ⟨i, hi, hl⟩ := ih h
          exact ⟨i, hi, (latest_concat_none (hsub i hi a ha) l).trans hl⟩
      | some b' =>
          rw [latest_concat_some ha] at h
          obtain ⟨i, hi, hg⟩ := hcover a b (ha.trans h)
          exact ⟨i, hi, latest_concat_some hg l⟩

end History
