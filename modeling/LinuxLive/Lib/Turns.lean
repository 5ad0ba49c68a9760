import LinuxLive.Lib.Pool

/-!
# Writers that take turns

Threads that append blocks to one output, a block in as many pieces as it takes, and hold
a lock from its first piece to its last.  The output can fail; then it takes nothing more.
-/

namespace LinuxLive.Turns

universe u v w

variable {κ : Type u} {β : Type v} {α : Type w} {bytes : β → List α}

/-- A thread: what is left of its block while it holds the lock, and the blocks to come. -/
structure Writer (κ : Type u) (β : Type v) (α : Type w) where
  id : κ
  rest : Option (List α)
  queue : List β

structure Output (κ : Type u) (β : Type v) (α : Type w) where
  holder : Option κ
  /-- The blocks that have been begun, each with its writer. -/
  begun : List (κ × β)
  out : List α
  failed : Bool

inductive Step (bytes : β → List α) :
    Writer κ β α → Output κ β α → Writer κ β α → Output κ β α → Prop where
  | lock {i : κ} {block : β} {queue : List β} {o : Output κ β α} :
      o.holder = none →
      Step bytes ⟨i, none, block :: queue⟩ o ⟨i, some (bytes block), queue⟩
        { o with holder := some i, begun := o.begun ++ [(i, block)] }
  | piece {i : κ} {piece rest : List α} {queue : List β} {o : Output κ β α} :
      o.failed = false →
      Step bytes ⟨i, some (piece ++ rest), queue⟩ o ⟨i, some rest, queue⟩
        { o with out := o.out ++ piece }
  | unlock {i : κ} {queue : List β} {o : Output κ β α} :
      Step bytes ⟨i, some [], queue⟩ o ⟨i, none, queue⟩ { o with holder := none }
  | fails {i : κ} {rest : List α} {queue : List β} {o : Output κ β α} :
      Step bytes ⟨i, some rest, queue⟩ o ⟨i, none, queue⟩
        { o with holder := none, failed := true }

def Steps (bytes : β → List α) : Pool (Writer κ β α) (Output κ β α) → Option Nat →
    Pool (Writer κ β α) (Output κ β α) → Prop :=
  Pool.Step (Step bytes) fun _ _ => False

def start (queues : List (κ × List β)) : Pool (Writer κ β α) (Output κ β α) :=
  ⟨queues.map fun q => ⟨q.1, none, q.2⟩, ⟨none, [], [], false⟩⟩

def Output.blocks (bytes : β → List α) (o : Output κ β α) : List α :=
  o.begun.flatMap fun b => bytes b.2

def Output.begunBy [DecidableEq κ] (o : Output κ β α) (i : κ) : List β :=
  (o.begun.filter fun b => b.1 = i).map Prod.snd

def Output.earlier (bytes : β → List α) (o : Output κ β α) : List α :=
  o.begun.dropLast.flatMap fun b => bytes b.2

/-- What is in the output is the beginning of whole blocks: all but the last one, and all of
them when nobody holds the lock. -/
structure Output.Sound (bytes : β → List α) (o : Output κ β α) : Prop where
  initial : o.out <+: o.blocks bytes
  earlier : o.failed = false → o.earlier bytes <+: o.out
  whole : o.holder = none → o.failed = false → o.out = o.blocks bytes

/-- Who is midway holds the lock, and what it has left is what is missing in the output. -/
structure Writer.Fits [DecidableEq κ] (bytes : β → List α) (queues : List (κ × List β))
    (w : Writer κ β α) (o : Output κ β α) : Prop where
  holds : ∀ rest, w.rest = some rest → o.holder = some w.id ∧
    (o.failed = false → o.out ++ rest = o.blocks bytes)
  order : (w.id, o.begunBy w.id ++ w.queue) ∈ queues

section blocks

variable {o : Output κ β α} {i j : κ} {block : β}

theorem blocks_begin : Output.blocks bytes { o with
    holder := some i, begun := o.begun ++ [(i, block)] } = o.blocks bytes ++ bytes block := by
  simp [Output.blocks]

theorem earlier_begin : Output.earlier bytes { o with
    holder := some i, begun := o.begun ++ [(i, block)] } = o.blocks bytes := by
  simp [Output.earlier, Output.blocks]

theorem begunBy_begin [DecidableEq κ] : Output.begunBy { o with
    holder := some i, begun := o.begun ++ [(i, block)] } j =
      o.begunBy j ++ if i = j then [block] else [] := by
  simp only [Output.begunBy, List.filter_append, List.map_append]
  by_cases hij : i = j <;> simp [hij]

end blocks

section fits

variable [DecidableEq κ] {queues : List (κ × List β)} {w w' u u' : Writer κ β α}
  {o o' : Output κ β α}

theorem Step.own (hsound : o.Sound bytes) (hfits : w.Fits bytes queues o)
    (hstep : Step bytes w o w' o') :
    o'.Sound bytes ∧ w'.Fits bytes queues o' ∧ w'.id = w.id := by
  cases hstep with
  | @lock i block queue o hfree =>
      refine ⟨⟨?_, ?_, nofun⟩, ⟨?_, ?_⟩, rfl⟩
      · rw [blocks_begin]
        exact hsound.initial.trans (List.prefix_append _ _)
      · intro hfailed
        have hall : o.out = o.blocks bytes := hsound.whole hfree hfailed
        rw [earlier_begin]
        exact ⟨[], by rw [List.append_nil, hall]⟩
      · rintro rest ⟨⟩
        refine ⟨rfl, fun hfailed => ?_⟩
        rw [blocks_begin, hsound.whole hfree hfailed]
      · rw [begunBy_begin, if_pos rfl, List.append_assoc]
        exact hfits.order
  | @piece i piece rest queue o hfailed =>
      obtain ⟨hholder, hleft⟩ := hfits.holds _ rfl
      have hleft : o.out ++ piece ++ rest = o.blocks bytes := by
        rw [List.append_assoc]
        exact hleft hfailed
      refine ⟨⟨⟨rest, hleft⟩, ?_, fun hfree => ?_⟩, ⟨?_, hfits.order⟩, rfl⟩
      · exact fun _ => (hsound.earlier hfailed).trans (List.prefix_append _ _)
      · rw [hholder] at hfree
        cases hfree
      · rintro rest' ⟨⟩
        exact ⟨hholder, fun _ => hleft⟩
  | @unlock i queue o =>
      have hleft := (hfits.holds _ rfl).2
      rw [List.append_nil] at hleft
      exact ⟨⟨hsound.initial, hsound.earlier, fun _ => hleft⟩, ⟨nofun, hfits.order⟩, rfl⟩
  | fails => exact ⟨⟨hsound.initial, nofun, nofun⟩, ⟨nofun, hfits.order⟩, rfl⟩

/-- The others do not touch the output while a writer is midway. -/
theorem Step.others (hfits : w.Fits bytes queues o) (hfits' : u.Fits bytes queues o)
    (hne : w.id ≠ u.id) (hstep : Step bytes u o u' o') : w.Fits bytes queues o' := by
  have hidle : ∀ rest, u.rest = some rest → w.rest = none := by
    intro rest hrest
    cases hw : w.rest with
    | none => rfl
    | some rest' =>
        have hsame := (hfits.holds _ hw).1.symm.trans (hfits'.holds _ hrest).1
        exact absurd (Option.some.inj hsame) hne
  have hnone : w.rest = none → ∀ rest, w.rest = some rest → o'.holder = some w.id ∧
      (o'.failed = false → o'.out ++ rest = o'.blocks bytes) := by
    intro hw rest hrest
    rw [hw] at hrest
    cases hrest
  cases hstep with
  | @lock i block queue o hfree =>
      refine ⟨hnone ?_, ?_⟩
      · cases hw : w.rest with
        | none => rfl
        | some rest =>
            rw [(hfits.holds _ hw).1] at hfree
            cases hfree
      · rw [begunBy_begin, if_neg (Ne.symm hne), List.append_nil]
        exact hfits.order
  | piece hfailed => exact ⟨hnone (hidle _ rfl), hfits.order⟩
  | unlock => exact ⟨hnone (hidle _ rfl), hfits.order⟩
  | fails => exact ⟨hnone (hidle _ rfl), hfits.order⟩

/-- In every run: the output is the beginning of the blocks begun; while nothing has failed all
of it but the last block, and that too once the lock is free; and each writer's blocks are begun
in its own order. -/
theorem whole_blocks {q : Pool (Writer κ β α) (Output κ β α)} (hnodup : (queues.map Prod.fst).Nodup)
    (h : Reachable (Steps bytes) (start queues) q) :
    q.shared.Sound bytes ∧ ∀ i queue, (i, queue) ∈ queues →
      ∃ w ∈ q.threads, w.id = i ∧ q.shared.begunBy i ++ w.queue = queue := by
  have hids : (start queues : Pool (Writer κ β α) _).threads.map Writer.id = queues.map Prod.fst := by
    rw [start, List.map_map]
    rfl
  obtain ⟨hkeys, hsound, hfits⟩ := Pool.noninterference Writer.id (Output.Sound bytes)
    (Writer.Fits bytes queues)
    (fun _ _ _ _ hsound hfits hstep => hstep.own hsound hfits)
    (fun _ _ _ _ _ _ hfits hfits' hne hstep => hstep.others hfits hfits' hne)
    (fun _ _ _ hstep => hstep.elim) h (hids ▸ hnodup)
    ⟨⟨List.prefix_refl _, fun _ => List.prefix_refl _, fun _ _ => rfl⟩, fun w hw => by
      obtain ⟨q, hq, rfl⟩ := List.mem_map.mp hw
      exact ⟨nofun, hq⟩⟩
  refine ⟨hsound, fun i queue hqueue => ?_⟩
  have hmem : i ∈ q.threads.map Writer.id := by
    rw [hkeys, hids]
    exact List.mem_map_of_mem hqueue
  obtain ⟨w, hw, rfl⟩ := List.mem_map.mp hmem
  have hsame := List.inj_on_of_nodup_map hnodup (hfits w hw).order hqueue rfl
  exact ⟨w, hw, rfl, congrArg Prod.snd hsame⟩

end fits

/-- With the lock free a writer can append its next block. -/
theorem reachable_block {before after : List (Writer κ β α)} {i : κ} {block : β} {queue : List β}
    {begun : List (κ × β)} {out : List α} :
    Reachable (Steps bytes) ⟨before ++ ⟨i, none, block :: queue⟩ :: after, ⟨none, begun, out, false⟩⟩
      ⟨before ++ ⟨i, none, queue⟩ :: after,
        ⟨none, begun ++ [(i, block)], out ++ bytes block, false⟩⟩ := by
  have hpiece : Step bytes ⟨i, some (bytes block ++ []), queue⟩
      ⟨some i, begun ++ [(i, block)], out, false⟩ ⟨i, some [], queue⟩
      ⟨some i, begun ++ [(i, block)], out ++ bytes block, false⟩ := .piece rfl
  rw [List.append_nil] at hpiece
  exact ((Pool.reachable_thread (.lock rfl)).trans (Pool.reachable_thread hpiece)).trans
    (Pool.reachable_thread .unlock)

end LinuxLive.Turns
