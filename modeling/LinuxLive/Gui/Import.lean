import Mathlib.Data.List.Induction
import LinuxLive.Core.ExportFile

/-!
# Importing achievements

`App::on_import_achievements`: the merge of an export file into `achievements.json`.
-/

namespace LinuxLive.App

open Persistence

/-! ## The map -/

/-- `merged[a.id] = a` on the values of a sorted map. -/
def assign (a : StoredAchievement) : List StoredAchievement → List StoredAchievement
  | [] => [a]
  | b :: bs =>
      if a.id < b.id then a :: b :: bs
      else if a.id = b.id then a :: bs
      else b :: assign a bs

/-- The local records, then the imported ones whose ids are not there yet. -/
def mergeAchievements (stored imported : List StoredAchievement) : List StoredAchievement :=
  imported.foldl (fun merged a => if merged.any fun b => b.id = a.id then merged else assign a merged)
    (stored.foldl (fun merged a => assign a merged) [])

/-- The content of `achievements.json` after the handler, and the exception of the save. -/
def onImportAchievements (lib : JsonText) (file exported : Option Bytes) :
    Option Bytes × Option JsonError :=
  let imported := importAchievements lib exported
  if imported.isEmpty then (file, none)
  else
    let saved := saveAchievements lib (mergeAchievements (loadAchievements lib file) imported)
    (some saved.1, saved.2)

/-! ## What is in the map -/

/-- The value of an id, if the map has one. -/
def valueOf (merged : List StoredAchievement) (id : Bytes) : Option StoredAchievement :=
  merged.find? fun b => b.id = id

def Sorted (merged : List StoredAchievement) : Prop :=
  merged.Pairwise fun a b => a.id < b.id

section map

variable {a b : StoredAchievement} {merged : List StoredAchievement}

theorem mem_assign (h : b ∈ assign a merged) : b = a ∨ b ∈ merged := by
  induction merged with
  | nil => simpa [assign] using h
  | cons c cs ih =>
      unfold assign at h
      split at h
      · simpa using h
      · split at h
        · rcases List.mem_cons.mp h with h | h
          · exact .inl h
          · exact .inr (List.mem_cons_of_mem c h)
        · rcases List.mem_cons.mp h with h | h
          · exact .inr (h ▸ List.mem_cons_self)
          · exact (ih h).imp_right (List.mem_cons_of_mem c)

theorem sorted_assign (h : Sorted merged) : Sorted (assign a merged) := by
  induction merged with
  | nil => simp [assign, Sorted]
  | cons c cs ih =>
      obtain ⟨hc, hcs⟩ := List.pairwise_cons.mp h
      unfold assign
      split
      · rename_i hlt
        refine List.pairwise_cons.mpr ⟨?_, h⟩
        intro b hb
        rcases List.mem_cons.mp hb with rfl | hb
        · exact hlt
        · exact List.lt_trans hlt (hc b hb)
      · split
        · rename_i heq
          refine List.pairwise_cons.mpr ⟨?_, hcs⟩
          intro b hb
          rw [heq]
          exact hc b hb
        · rename_i hnlt hne
          refine List.pairwise_cons.mpr ⟨?_, ih hcs⟩
          intro b hb
          rcases mem_assign hb with rfl | hb
          · rcases Std.le_iff_lt_or_eq.mp (List.not_lt.mp hnlt) with hlt | heq
            · exact hlt
            · exact absurd heq.symm hne
          · exact hc b hb

theorem mem_iff_valueOf (h : Sorted merged) : a ∈ merged ↔ valueOf merged a.id = some a := by
  constructor
  · intro ha
    induction merged with
    | nil => cases ha
    | cons c cs ih =>
        obtain ⟨hc, hcs⟩ := List.pairwise_cons.mp h
        rcases List.mem_cons.mp ha with rfl | ha
        · simp [valueOf]
        · have hne : c.id ≠ a.id := fun heq => List.lt_irrefl a.id (heq ▸ hc a ha)
          rw [valueOf, List.find?_cons_of_neg (by simpa using hne)]
          exact ih hcs ha
  · exact fun ha => List.mem_of_find?_eq_some ha

theorem valueOf_assign (id : Bytes) :
    valueOf (assign a merged) id = if a.id = id then some a else valueOf merged id := by
  induction merged with
  | nil => by_cases h : a.id = id <;> simp [assign, valueOf, h]
  | cons c cs ih =>
      unfold assign
      split
      · by_cases h : a.id = id <;> simp [valueOf, h]
      · split
        · rename_i heq
          by_cases h : a.id = id
          · simp [valueOf, h]
          · have hc : ¬ c.id = id := heq ▸ h
            simp [valueOf, h, hc]
        · rename_i hne
          unfold valueOf at ih ⊢
          by_cases hc : c.id = id
          · have ha : ¬ a.id = id := fun h => hne (h.trans hc.symm)
            simp [hc, ha]
          · rw [List.find?_cons_of_neg (by simpa using hc), ih,
              List.find?_cons_of_neg (by simpa using hc)]

theorem valueOf_stored (stored : List StoredAchievement) (id : Bytes) :
    valueOf (stored.foldl (fun merged a => assign a merged) []) id =
      stored.reverse.find? fun b => b.id = id := by
  induction stored using List.reverseRecOn with
  | nil => rfl
  | append_singleton stored a ih =>
      rw [List.foldl_append, List.foldl_cons, List.foldl_nil, valueOf_assign, ih]
      by_cases h : a.id = id <;> simp [h]

theorem valueOf_imported (imported merged : List StoredAchievement) (id : Bytes) :
    valueOf (imported.foldl
      (fun merged a => if merged.any fun b => b.id = a.id then merged else assign a merged) merged)
      id = (valueOf merged id).or (imported.find? fun b => b.id = id) := by
  induction imported generalizing merged with
  | nil => simp
  | cons a imported ih =>
      rw [List.foldl_cons, ih]
      split
      · rename_i hany
        by_cases h : a.id = id
        · have hsome : (valueOf merged id).isSome = true := by
            rw [valueOf, List.find?_isSome]
            simpa [h] using hany
          obtain ⟨b, hb⟩ := Option.isSome_iff_exists.mp hsome
          rw [hb, Option.some_or, Option.some_or]
        · rw [List.find?_cons_of_neg (by simpa using h)]
      · rename_i hany
        rw [valueOf_assign]
        by_cases h : a.id = id
        · have hnone : valueOf merged id = none := by
            rw [valueOf, List.find?_eq_none]
            simpa [h] using hany
          rw [if_pos h, hnone, Option.some_or, Option.none_or,
            List.find?_cons_of_pos (by simpa using h)]
        · rw [if_neg h, List.find?_cons_of_neg (by simpa using h)]

/-- The local records come first. -/
theorem valueOf_mergeAchievements (stored imported : List StoredAchievement) (id : Bytes) :
    valueOf (mergeAchievements stored imported) id =
      (stored.reverse.find? fun b => b.id = id).or (imported.find? fun b => b.id = id) := by
  rw [mergeAchievements, valueOf_imported, valueOf_stored]

theorem sorted_mergeAchievements (stored imported : List StoredAchievement) :
    Sorted (mergeAchievements stored imported) := by
  have hstored : Sorted (stored.foldl (fun merged a => assign a merged) []) := by
    induction stored using List.reverseRecOn with
    | nil => exact List.Pairwise.nil
    | append_singleton stored a ih =>
        rw [List.foldl_append]
        exact sorted_assign ih
  unfold mergeAchievements
  induction imported using List.reverseRecOn with
  | nil => exact hstored
  | append_singleton imported a ih =>
      rw [List.foldl_append, List.foldl_cons, List.foldl_nil]
      split
      · exact ih
      · exact sorted_assign ih

end map

theorem mem_mergeAchievements {stored imported : List StoredAchievement} {a : StoredAchievement}
    (h : a ∈ mergeAchievements stored imported) : a ∈ stored ∨ a ∈ imported := by
  rw [mem_iff_valueOf (sorted_mergeAchievements stored imported), valueOf_mergeAchievements,
    Option.or_eq_some_iff] at h
  rcases h with h | h
  · exact .inl (List.mem_reverse.mp (List.mem_of_find?_eq_some h))
  · exact .inr (List.mem_of_find?_eq_some h.2)

theorem onImportAchievements_thrown (lib : JsonText) (file exported : Option Bytes) :
    (onImportAchievements lib file exported).2 = none := by
  unfold onImportAchievements
  dsimp only
  split
  · rfl
  · apply saveAchievements_iff.mpr
    intro a ha
    rcases mem_mergeAchievements ha with ha | ha
    · exact utf8_loadAchievements ha
    · exact (utf8_importAchievements ha).1

end LinuxLive.App
