import Mathlib.Data.List.Perm.Basic
import LinuxLive.Lib.Runs

/-!
# Writers that share an output

Each writer appends the blocks of its queue, a block in as many pieces as it takes; a
piece is one atomic step.  If nobody appends while another writer is midway in a block,
the output is made of whole blocks; two writers with blocks of their own can
always break this.
-/

namespace LinuxLive

universe u

/-- A writer: the block in work, how much of it has been appended, and the later ones. -/
structure Writer (α : Type u) where
  data : List α
  sent : Nat
  queue : List (List α)

structure Channel (α : Type u) where
  writers : List (Writer α)
  out : List α

namespace Writer

variable {α : Type u}

def Midway (w : Writer α) : Prop := 0 < w.sent ∧ w.sent < w.data.length

def Done (w : Writer α) : Prop := w.data.length ≤ w.sent ∧ w.queue = []

def unfinished (w : Writer α) : List α := if 0 < w.sent then w.data.drop w.sent else []

def waiting (w : Writer α) : List (List α) :=
  if w.sent = 0 ∧ w.data ≠ [] then w.data :: w.queue else w.queue

theorem unfinished_of_not_midway {w : Writer α} (h : ¬ w.Midway) : w.unfinished = [] := by
  unfold unfinished
  split
  · apply List.drop_of_length_le
    unfold Midway at h
    omega
  · rfl

theorem waiting_of_length_le {w : Writer α} (h : w.data.length ≤ w.sent) :
    w.waiting = w.queue := by
  unfold waiting
  rw [if_neg]
  intro hstart
  have hlength := List.length_pos_of_ne_nil hstart.2
  omega

theorem waiting_of_done {w : Writer α} (h : w.Done) : w.waiting = [] :=
  (waiting_of_length_le h.1).trans h.2

theorem Done.not_midway {w : Writer α} (h : w.Done) : ¬ w.Midway := by
  unfold Midway
  have hle := h.1
  omega

section piece

variable {w : Writer α} {n : Nat}

/-- The piece that is appended and what is unfinished behind it. -/
theorem unfinished_piece (hpos : 0 < n) :
    (w.data.drop w.sent).take n ++ unfinished ⟨w.data, w.sent + n, w.queue⟩ =
      w.data.drop w.sent := by
  have hnew : unfinished ⟨w.data, w.sent + n, w.queue⟩ = w.data.drop (w.sent + n) :=
    if_pos (Nat.add_pos_right w.sent hpos)
  rw [hnew, ← List.drop_drop, List.take_append_drop]

/-- With its first piece a block is no longer waiting. -/
theorem waiting_first (hpos : 0 < n) (hle : w.sent + n ≤ w.data.length) (h : w.sent = 0) :
    w.waiting = w.data :: waiting ⟨w.data, w.sent + n, w.queue⟩ := by
  have hdata : w.data ≠ [] := by
    intro hnil
    rw [hnil, List.length_nil] at hle
    omega
  unfold waiting
  rw [if_pos ⟨h, hdata⟩, if_neg]
  intro hstart
  have hzero := hstart.1
  dsimp only at hzero
  omega

theorem waiting_later (h : w.sent ≠ 0) :
    waiting ⟨w.data, w.sent + n, w.queue⟩ = w.waiting := by
  unfold waiting
  rw [if_neg (by dsimp only; omega), if_neg (by omega)]

end piece

end Writer

namespace Channel

variable {α : Type u}

def start (queues : List (List (List α))) : Channel α where
  writers := queues.map fun queue => ⟨[], 0, queue⟩
  out := []

def Finished (c : Channel α) : Prop := ∀ w ∈ c.writers, w.Done

/-- A writer goes on to its next block or appends a piece; `guard` is what it asks of the
others for that. -/
inductive Step (guard : List (Writer α) → Prop) : Channel α → Nat → Channel α → Prop where
  | next {before after : List (Writer α)} {w : Writer α} {out block : List α}
      {blocks : List (List α)} :
      w.data.length ≤ w.sent → w.queue = block :: blocks →
      Step guard ⟨before ++ w :: after, out⟩ before.length
        ⟨before ++ ⟨block, 0, blocks⟩ :: after, out⟩
  | append {before after : List (Writer α)} {w : Writer α} {out : List α} {n : Nat} :
      0 < n → w.sent + n ≤ w.data.length → guard (before ++ after) →
      Step guard ⟨before ++ w :: after, out⟩ before.length
        ⟨before ++ ⟨w.data, w.sent + n, w.queue⟩ :: after, out ++ (w.data.drop w.sent).take n⟩

/-- Any writer may append at any time. -/
def Free (_ : List (Writer α)) : Prop := True

/-- No other writer is midway in a block. -/
def Alone (others : List (Writer α)) : Prop := ∀ w ∈ others, ¬ w.Midway

/-! ## Blocks stay whole -/

/-- The output and the rest of the block in work are whole blocks, in some order. -/
def Whole (blocks : List (List α)) (c : Channel α) : Prop :=
  ∃ order : List (List α), c.out ++ c.writers.flatMap Writer.unfinished = order.flatten ∧
    (order ++ c.writers.flatMap Writer.waiting).Perm blocks

theorem whole_start (queues : List (List (List α))) : Whole queues.flatten (start queues) := by
  refine ⟨[], ?_, ?_⟩
  · simp [start, Writer.unfinished, List.flatMap]
  · have hwaiting : (start queues).writers.flatMap Writer.waiting = queues.flatten := by
      simp [start, Writer.waiting, List.flatMap, Function.comp_def]
    rw [List.nil_append, hwaiting]

section step

variable {before after : List (Writer α)} {w w' : Writer α} {out : List α}
  {blocks : List (List α)} {block : List α}

theorem unfinished_of_alone (h : Alone (before ++ after)) :
    (before ++ w :: after).flatMap Writer.unfinished = w.unfinished := by
  have hnil : ∀ u ∈ before ++ after, u.unfinished = [] := fun u hu =>
    Writer.unfinished_of_not_midway (h u hu)
  have hbefore : before.flatMap Writer.unfinished = [] :=
    List.flatMap_eq_nil_iff.mpr fun u hu => hnil u (List.mem_append_left _ hu)
  have hafter : after.flatMap Writer.unfinished = [] :=
    List.flatMap_eq_nil_iff.mpr fun u hu => hnil u (List.mem_append_right _ hu)
  rw [List.flatMap_append, List.flatMap_cons, hbefore, hafter, List.nil_append, List.append_nil]

theorem waiting_perm (h : w.waiting = block :: w'.waiting) :
    ((before ++ w :: after).flatMap Writer.waiting).Perm
      (block :: (before ++ w' :: after).flatMap Writer.waiting) := by
  simp only [List.flatMap_append, List.flatMap_cons, h, List.cons_append]
  exact List.perm_middle

theorem whole_next {rest : List (List α)} (hc : Whole blocks ⟨before ++ w :: after, out⟩)
    (hdone : w.data.length ≤ w.sent) (hqueue : w.queue = block :: rest) :
    Whole blocks ⟨before ++ ⟨block, 0, rest⟩ :: after, out⟩ := by
  obtain ⟨order, hout, hperm⟩ := hc
  have hold : w.unfinished = [] := Writer.unfinished_of_not_midway fun h => by
    unfold Writer.Midway at h
    omega
  have hnew : Writer.unfinished ⟨block, 0, rest⟩ = [] := rfl
  have hwaiting : w.waiting = block :: rest := (Writer.waiting_of_length_le hdone).trans hqueue
  simp only [List.flatMap_append, List.flatMap_cons, hold, List.nil_append] at hout
  by_cases hblock : block = []
  · -- an empty block is whole at once
    subst hblock
    have hqueued : w.waiting = [] :: Writer.waiting ⟨[], 0, rest⟩ := hwaiting
    refine ⟨[] :: order, ?_, ?_⟩
    · simpa [hnew] using hout
    · exact (List.perm_middle.symm.trans
        ((waiting_perm hqueued).symm.append_left order)).trans hperm
  · refine ⟨order, ?_, ?_⟩
    · simpa [hnew] using hout
    · have hsame : Writer.waiting ⟨block, 0, rest⟩ = w.waiting := by
        rw [hwaiting]
        exact if_pos ⟨rfl, hblock⟩
      simpa only [List.flatMap_append, List.flatMap_cons, hsame] using hperm

theorem whole_append {n : Nat} (hc : Whole blocks ⟨before ++ w :: after, out⟩) (hpos : 0 < n)
    (hle : w.sent + n ≤ w.data.length) (halone : Alone (before ++ after)) :
    Whole blocks ⟨before ++ ⟨w.data, w.sent + n, w.queue⟩ :: after,
      out ++ (w.data.drop w.sent).take n⟩ := by
  obtain ⟨order, hout, hperm⟩ := hc
  rw [unfinished_of_alone halone] at hout
  by_cases hstart : w.sent = 0
  · have hold : w.unfinished = [] := if_neg (by omega)
    rw [hold, List.append_nil] at hout
    refine ⟨order ++ [w.data], ?_, ?_⟩
    · dsimp only
      rw [unfinished_of_alone halone, List.append_assoc, Writer.unfinished_piece hpos, hstart,
        List.drop_zero, List.flatten_append, ← hout]
      simp
    · rw [List.append_assoc]
      exact ((waiting_perm (Writer.waiting_first hpos hle hstart)).symm.append_left order).trans
        hperm
  · have hold : w.unfinished = w.data.drop w.sent := if_pos (by omega)
    refine ⟨order, ?_, ?_⟩
    · dsimp only
      rw [unfinished_of_alone halone, List.append_assoc, Writer.unfinished_piece hpos, ← hold, hout]
    · simpa only [List.flatMap_append, List.flatMap_cons, Writer.waiting_later hstart] using hperm

theorem whole_step {c c' : Channel α} {i : Nat} (hc : Whole blocks c)
    (hstep : Step Alone c i c') : Whole blocks c' := by
  cases hstep with
  | next hdone hqueue => exact whole_next hc hdone hqueue
  | append hpos hle halone => exact whole_append hc hpos hle halone

end step

/-- In a run in which nobody appends while another one is midway, the output is always a
prefix of whole blocks, and at the end it is all of them. -/
theorem whole_of_reachable {queues : List (List (List α))} {c : Channel α}
    (h : Reachable (Step Alone) (start queues) c) :
    ∃ order : List (List α), order.Perm queues.flatten ∧ c.out <+: order.flatten ∧
      (c.Finished → c.out = order.flatten) := by
  obtain ⟨order, hout, hperm⟩ := h.keeps (fun _ _ _ => whole_step) (whole_start queues)
  refine ⟨order ++ c.writers.flatMap Writer.waiting, hperm, ?_, ?_⟩
  · rw [List.flatten_append, ← hout, List.append_assoc]
    exact List.prefix_append _ _
  · intro hfinished
    have hunfinished : c.writers.flatMap Writer.unfinished = [] :=
      List.flatMap_eq_nil_iff.mpr fun w hw =>
        Writer.unfinished_of_not_midway (hfinished w hw).not_midway
    have hwaiting : c.writers.flatMap Writer.waiting = [] :=
      List.flatMap_eq_nil_iff.mpr fun w hw => Writer.waiting_of_done (hfinished w hw)
    rw [hwaiting, List.append_nil, ← hout, hunfinished, List.append_nil]

/-! ## One writer at most -/

/-- Of any two writers one is done: then the others never do anything. -/
def Single (c : Channel α) : Prop := c.writers.Pairwise fun w w' => w.Done ∨ w'.Done

section single

variable {before after : List (Writer α)} {w : Writer α}

theorem done_of_single (h : (before ++ w :: after).Pairwise fun w w' => w.Done ∨ w'.Done)
    (hw : ¬ w.Done) : ∀ u ∈ before ++ after, u.Done := by
  intro u hu
  rw [List.pairwise_append, List.pairwise_cons] at h
  rcases List.mem_append.mp hu with hu | hu
  · exact (h.2.2 u hu w List.mem_cons_self).resolve_right hw
  · exact (h.2.1.1 u hu).resolve_left hw

theorem single_of_done (h : ∀ u ∈ before ++ after, u.Done) :
    (before ++ w :: after).Pairwise fun w w' => w.Done ∨ w'.Done := by
  have hothers : (before ++ after).Pairwise fun w w' => w.Done ∨ w'.Done :=
    List.pairwise_of_forall_mem_list fun u hu _ _ => .inl (h u hu)
  rw [List.pairwise_append] at hothers ⊢
  refine ⟨hothers.1, List.pairwise_cons.mpr ⟨?_, hothers.2.1⟩, ?_⟩
  · exact fun u hu => .inr (h u (List.mem_append_right _ hu))
  · exact fun u hu v _ => .inl (h u (List.mem_append_left _ hu))

theorem alone_of_single {c c' : Channel α} {i : Nat} (hc : Single c) (hstep : Step Free c i c') :
    Step Alone c i c' ∧ Single c' := by
  cases hstep with
  | next hdone hqueue =>
      have hothers := done_of_single hc fun h => by
        rw [h.2] at hqueue
        cases hqueue
      exact ⟨.next hdone hqueue, single_of_done hothers⟩
  | append hpos hle _ =>
      have hothers := done_of_single hc fun h => by
        have := h.1
        omega
      exact ⟨.append hpos hle fun u hu => (hothers u hu).not_midway, single_of_done hothers⟩

theorem reachable_alone_of_single {c c' : Channel α} (hc : Single c)
    (h : Reachable (Step Free) c c') : Reachable (Step Alone) c c' := by
  obtain ⟨l, hrun⟩ := h
  induction hrun with
  | nil c => exact .refl c
  | cons hstep _ ih =>
      obtain ⟨halone, hsingle⟩ := alone_of_single hc hstep
      exact (Reachable.refl _).snoc halone |>.trans (ih hsingle)

end single

theorem single_start {queues : List (List (List α))}
    (h : queues.Pairwise fun q q' => q = [] ∨ q' = []) : Single (start queues) := by
  refine List.pairwise_map.mpr (h.imp ?_)
  intro q q' hq
  rcases hq with hq | hq
  · exact .inl ⟨Nat.le_refl _, hq⟩
  · exact .inr ⟨Nat.le_refl _, hq⟩

/-! ## Two writers -/

section finish

theorem exists_flushed (before after : List (Writer α)) (out : List α) (w : Writer α) :
    ∃ sent piece, w.data.length ≤ sent ∧ Reachable (Step Free) ⟨before ++ w :: after, out⟩
      ⟨before ++ ⟨w.data, sent, w.queue⟩ :: after, out ++ piece⟩ := by
  by_cases hdone : w.data.length ≤ w.sent
  · refine ⟨w.sent, [], hdone, ?_⟩
    rw [List.append_nil]
    exact .refl _
  · have hstep : Step Free ⟨before ++ w :: after, out⟩ before.length
        ⟨before ++ ⟨w.data, w.sent + (w.data.length - w.sent), w.queue⟩ :: after,
          out ++ (w.data.drop w.sent).take (w.data.length - w.sent)⟩ :=
      .append (by omega) (by omega) trivial
    exact ⟨_, _, by omega, (Reachable.refl _).snoc hstep⟩

theorem exists_writer_done (before after : List (Writer α)) (out : List α) (w : Writer α) :
    ∃ w' rest, w'.Done ∧
      Reachable (Step Free) ⟨before ++ w :: after, out⟩ ⟨before ++ w' :: after, out ++ rest⟩ := by
  obtain ⟨data, sent, queue⟩ := w
  induction queue generalizing data sent out with
  | nil =>
      obtain ⟨sent', piece, hsent, hreach⟩ := exists_flushed before after out ⟨data, sent, []⟩
      exact ⟨_, piece, ⟨hsent, rfl⟩, hreach⟩
  | cons block blocks ih =>
      obtain ⟨sent', piece, hsent, hreach⟩ :=
        exists_flushed before after out ⟨data, sent, block :: blocks⟩
      have hnext : Step Free ⟨before ++ ⟨data, sent', block :: blocks⟩ :: after, out ++ piece⟩
          before.length ⟨before ++ ⟨block, 0, blocks⟩ :: after, out ++ piece⟩ := .next hsent rfl
      obtain ⟨w', rest, hdone, hreach'⟩ := ih (out ++ piece) block 0
      rw [List.append_assoc] at hreach'
      exact ⟨w', piece ++ rest, hdone, (hreach.snoc hnext).trans hreach'⟩

theorem exists_finished (c : Channel α) :
    ∃ c', Reachable (Step Free) c c' ∧ c'.Finished ∧ c.out <+: c'.out := by
  -- the writers are taken in their order; those before are done
  have hall : ∀ (after before : List (Writer α)) (out : List α), (∀ w ∈ before, w.Done) →
      ∃ c', Reachable (Step Free) ⟨before ++ after, out⟩ c' ∧ c'.Finished ∧ out <+: c'.out := by
    intro after
    induction after with
    | nil =>
        intro before out hbefore
        refine ⟨_, .refl _, ?_, List.prefix_refl _⟩
        rw [List.append_nil]
        exact hbefore
    | cons w after ih =>
        intro before out hbefore
        obtain ⟨w', rest, hdone, hreach⟩ := exists_writer_done before after out w
        have hbefore' : ∀ u ∈ before ++ [w'], u.Done := by
          intro u hu
          rcases List.mem_append.mp hu with hu | hu
          · exact hbefore u hu
          · rw [List.mem_singleton.mp hu]
            exact hdone
        obtain ⟨c', hreach', hfinished, hprefix⟩ := ih (before ++ [w']) (out ++ rest) hbefore'
        rw [List.append_assoc, List.singleton_append] at hreach'
        exact ⟨c', hreach.trans hreach', hfinished, (List.prefix_append out rest).trans hprefix⟩
  exact hall c.writers [] c.out fun _ h => absurd h List.not_mem_nil

theorem reachable_first (before after : List (Writer α)) (out : List α) (x : α) (b : List α)
    (bs : List (List α)) :
    Reachable (Step Free) ⟨before ++ ⟨[], 0, (x :: b) :: bs⟩ :: after, out⟩
      ⟨before ++ ⟨x :: b, 1, bs⟩ :: after, out ++ [x]⟩ := by
  have hnext : Step Free ⟨before ++ ⟨[], 0, (x :: b) :: bs⟩ :: after, out⟩ before.length
      ⟨before ++ ⟨x :: b, 0, bs⟩ :: after, out⟩ := .next (Nat.le_refl _) rfl
  have happend : Step Free ⟨before ++ ⟨x :: b, 0, bs⟩ :: after, out⟩ before.length
      ⟨before ++ ⟨x :: b, 1, bs⟩ :: after, out ++ [x]⟩ :=
    .append Nat.one_pos (by simp) trivial
  exact ((Reachable.refl _).snoc hnext).snoc happend

/-- The first pieces of two writers can come right behind each other. -/
theorem exists_torn (before middle after : List (List (List α))) (x x' : α) (b b' : List α)
    (bs bs' : List (List α)) :
    ∃ c, Reachable (Step Free)
        (start (before ++ ((x :: b) :: bs) :: (middle ++ ((x' :: b') :: bs') :: after))) c ∧
      c.Finished ∧ [x, x'] <+: c.out := by
  let idle (queue : List (List α)) : Writer α := ⟨[], 0, queue⟩
  have hstart : start (before ++ ((x :: b) :: bs) :: (middle ++ ((x' :: b') :: bs') :: after)) =
      ⟨before.map idle ++ ⟨[], 0, (x :: b) :: bs⟩ ::
        (middle.map idle ++ ⟨[], 0, (x' :: b') :: bs'⟩ :: after.map idle), []⟩ := by
    simp [start, idle]
  have hfirst := reachable_first (before.map idle)
    (middle.map idle ++ ⟨[], 0, (x' :: b') :: bs'⟩ :: after.map idle) [] x b bs
  have hsecond := reachable_first (before.map idle ++ ⟨x :: b, 1, bs⟩ :: middle.map idle)
    (after.map idle) [x] x' b' bs'
  simp only [List.append_assoc, List.cons_append] at hsecond
  obtain ⟨c, hreach, hfinished, hprefix⟩ := exists_finished
    ⟨before.map idle ++ ⟨x :: b, 1, bs⟩ :: (middle.map idle ++ ⟨x' :: b', 1, bs'⟩ ::
      after.map idle), [x, x']⟩
  rw [hstart]
  exact ⟨c, (hfirst.trans hsecond).trans hreach, hfinished, hprefix⟩

end finish

end Channel

end LinuxLive
