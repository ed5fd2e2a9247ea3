import MeshRouter.Broker.DeadLetter

/-!
# What the dead-letter queue retains

The queue over any sequence of `push`, `pop` and `clear`. Its entries are the latest of the entries
pushed since the last `clear`, in the order of the pushes, without the oldest ones that a full queue
has evicted or that have been popped (`Retains`). `list_entries` takes its limit from the tail of
the matching entries, and takes all of them for the limit 0 (`listEntries_limit_iff`).
-/

namespace MeshRouter.Broker.DeadLetterQueue

open Lib

/-- An operation that changes the queue. -/
inductive Op where
  | push (entry : DeadLetterEntry)
  | pop
  | clear
deriving DecidableEq

/-- The queue after an operation. -/
def apply (dlq : DeadLetterQueue) : Op → DeadLetterQueue
  | .push entry => dlq.push entry
  | .pop => dlq.pop.2
  | .clear => dlq.clear.2

/-- The queue after a sequence of operations. -/
def after (dlq : DeadLetterQueue) (ops : List Op) : DeadLetterQueue := ops.foldl apply dlq

/-- The entry that an operation pushes. -/
def Op.pushed? : Op → Option DeadLetterEntry
  | .push entry => some entry
  | .pop => none
  | .clear => none

/-- The entries pushed, in the order of the pushes. -/
def pushes (ops : List Op) : List DeadLetterEntry := ops.filterMap Op.pushed?

/-- The operations since the last `clear`. -/
def sinceClear (ops : List Op) : List Op := ops.rtakeWhile (· ≠ .clear)

variable {dlq : DeadLetterQueue} {ops : List Op} {op : Op}

theorem after_concat : dlq.after (ops ++ [op]) = (dlq.after ops).apply op := by
  rw [after, List.foldl_append]
  rfl

theorem pushes_append (ops ops' : List Op) : pushes (ops ++ ops') = pushes ops ++ pushes ops' :=
  List.filterMap_append

theorem pushes_concat : pushes (ops ++ [op]) = pushes ops ++ op.pushed?.toList := by
  rw [pushes_append]
  cases op <;> rfl

theorem sinceClear_concat_clear : sinceClear (ops ++ [.clear]) = [] := by
  rw [sinceClear, List.rtakeWhile_concat_neg]
  simp

theorem sinceClear_concat (h : op ≠ .clear) :
    sinceClear (ops ++ [op]) = sinceClear ops ++ [op] := by
  rw [sinceClear, List.rtakeWhile_concat_pos _ _ _ (by simpa using h), sinceClear]

/-- The entries pushed since the last `clear` are the latest of those pushed. -/
theorem pushes_sinceClear_suffix (ops : List Op) : pushes (sinceClear ops) <:+ pushes ops := by
  obtain ⟨before, hbefore⟩ := List.rtakeWhile_suffix (· ≠ Op.clear) ops
  refine ⟨pushes before, ?_⟩
  rw [← pushes_append, sinceClear, hbefore]

/-- Nothing before a `clear` is since the last one. -/
theorem sinceClear_clear_suffix (ops ops' : List Op) :
    sinceClear (ops ++ .clear :: ops') <:+ ops' := by
  induction ops' using List.reverseRecOn with
  | nil => exact List.suffix_nil.mpr sinceClear_concat_clear
  | append_singleton ops' op ih =>
    rw [← List.cons_append, ← List.append_assoc]
    by_cases hop : op = .clear
    · rw [hop, sinceClear_concat_clear]
      exact List.nil_suffix
    · rw [sinceClear_concat hop]
      exact (List.suffix_append_inj_of_length_eq rfl).mpr ⟨ih, rfl⟩

/-- A push evicts at most one entry, the oldest, and only from a full queue. -/
theorem push_evicts (dlq : DeadLetterQueue) (entry : DeadLetterEntry) :
    ∃ evicted, dlq.entries ++ [entry] = evicted ++ (dlq.push entry).entries ∧
      evicted.length ≤ 1 ∧ (evicted ≠ [] → dlq.maxsize ≤ dlq.entries.length) := by
  by_cases hfull : dlq.maxsize ≤ dlq.entries.length
  · refine ⟨dlq.entries.take 1, ?_, List.length_take_le 1 _, fun _ => hfull⟩
    rw [push, if_pos hfull, ← List.append_assoc, ← List.drop_one, List.take_append_drop]
  · refine ⟨[], ?_, Nat.zero_le 1, fun hne => absurd rfl hne⟩
    rw [push, if_neg hfull, List.nil_append]

/-- A push is there afterwards, and the queue is no longer than its bound. -/
theorem length_push (dlq : DeadLetterQueue) (entry : DeadLetterEntry)
    (h : dlq.entries.length ≤ dlq.maxsize) :
    (dlq.push entry).entries.length ≤ dlq.maxsize := by
  have hpos := dlq.maxsize_pos
  rw [push]
  dsimp only
  split_ifs with hfull
  · rw [List.length_append, List.length_tail, List.length_singleton]
    omega
  · rw [List.length_append, List.length_singleton]
    omega

/-- A pop returns the oldest entry and leaves the others. -/
theorem pop_entries (dlq : DeadLetterQueue) :
    dlq.pop.1 = dlq.entries.head? ∧ dlq.pop.2.entries = dlq.entries.tail := by
  rw [pop]
  cases hentries : dlq.entries with
  | nil => exact ⟨rfl, hentries⟩
  | cons entry rest => exact ⟨rfl, rfl⟩

@[simp]
theorem maxsize_pop (dlq : DeadLetterQueue) : dlq.pop.2.maxsize = dlq.maxsize := by
  rw [pop]
  split <;> rfl

@[simp]
theorem totalReceived_pop (dlq : DeadLetterQueue) :
    dlq.pop.2.totalReceived = dlq.totalReceived := by
  rw [pop]
  split <;> rfl

/-- What a queue with this bound retains after the operations. -/
structure Retains (maxsize : ℕ) (ops : List Op) (dlq : DeadLetterQueue) : Prop where
  maxsize_eq : dlq.maxsize = maxsize
  /-- The queue is never longer than its bound. -/
  length_le : dlq.entries.length ≤ maxsize
  /-- The entries are the latest of those pushed since the last `clear`. -/
  window : dlq.entries <:+ pushes (sinceClear ops)
  /-- Every push has been counted. -/
  totalReceived_eq : dlq.totalReceived = (pushes ops).length

/-- What is retained after one more operation. -/
theorem Retains.apply {maxsize : ℕ} (h : Retains maxsize ops dlq) (op : Op) :
    Retains maxsize (ops ++ [op]) (dlq.apply op) := by
  obtain ⟨hmaxsize, hlength, hwindow, htotal⟩ := h
  cases op with
  | push entry =>
    have hlength' : (dlq.push entry).entries.length ≤ dlq.maxsize :=
      length_push dlq entry (hmaxsize ▸ hlength)
    obtain ⟨evicted, hevicted, -⟩ := push_evicts dlq entry
    have hpushed : (dlq.push entry).entries <:+ dlq.entries ++ [entry] := ⟨evicted, hevicted.symm⟩
    refine ⟨hmaxsize, hmaxsize ▸ hlength', ?_, ?_⟩
    · rw [sinceClear_concat (by simp), pushes_concat]
      exact hpushed.trans ((List.suffix_append_inj_of_length_eq rfl).mpr ⟨hwindow, rfl⟩)
    · rw [pushes_concat, List.length_append, ← htotal]
      rfl
  | pop =>
    obtain ⟨-, hentries⟩ := pop_entries dlq
    have htail : dlq.pop.2.entries <:+ dlq.entries := hentries ▸ List.tail_suffix _
    refine ⟨(maxsize_pop dlq).trans hmaxsize, htail.length_le.trans hlength, ?_, ?_⟩
    · rw [sinceClear_concat (by simp), pushes_concat]
      exact (htail.trans hwindow).trans (by simp [Op.pushed?])
    · rw [pushes_concat, DeadLetterQueue.apply, totalReceived_pop, htotal]
      simp [Op.pushed?]
  | clear =>
    refine ⟨hmaxsize, Nat.zero_le _, List.nil_suffix, ?_⟩
    rw [pushes_concat, DeadLetterQueue.apply, clear, htotal]
    simp [Op.pushed?]

/-- What is retained after every sequence of operations. -/
theorem retains_after {maxsize : ℕ} (hmaxsize : dlq.maxsize = maxsize) (hempty : dlq.entries = [])
    (htotal : dlq.totalReceived = 0) (ops : List Op) : Retains maxsize ops (dlq.after ops) := by
  induction ops using List.reverseRecOn with
  | nil => exact ⟨hmaxsize, by simp [after, hempty], by simp [after, hempty], htotal⟩
  | append_singleton ops op ih =>
    rw [after_concat]
    exact ih.apply op

/-- Nothing is retained from a `clear` to the next push. -/
theorem Retains.entries_eq_nil {maxsize : ℕ} {ops' : List Op}
    (h : Retains maxsize (ops ++ .clear :: ops') dlq) (hpush : ∀ op ∈ ops', op.pushed? = none) :
    dlq.entries = [] := by
  have hsince : pushes (sinceClear (ops ++ .clear :: ops')) = [] :=
    List.filterMap_eq_nil_iff.mpr fun op hop =>
      hpush op ((sinceClear_clear_suffix ops ops').subset hop)
  exact List.suffix_nil.mp (hsince ▸ h.window)

/-- The queue over any sequence of operations. It never holds more than `maxsize` entries. They are
the latest of the entries pushed, in the order of the pushes, none of them pushed before the last
`clear`. A push evicts at most one entry, the oldest, and only when the queue is full. A pop returns
the oldest entry. Every push has been counted. -/
theorem deadLetter_retention {maxsize : ℤ} (hmaxsize : 1 ≤ maxsize) :
    ∃ dlq, init maxsize = .ok dlq ∧ ∀ ops,
      (dlq.after ops).entries.length ≤ maxsize ∧
      (dlq.after ops).entries <:+ pushes ops ∧
      (∀ ops₁ ops₂, ops = ops₁ ++ .clear :: ops₂ → (∀ op ∈ ops₂, op.pushed? = none) →
        (dlq.after ops).entries = []) ∧
      (∀ entry, ∃ evicted,
        (dlq.after ops).entries ++ [entry] = evicted ++ ((dlq.after ops).push entry).entries ∧
        evicted.length ≤ 1 ∧ (evicted ≠ [] → (dlq.after ops).entries.length = maxsize)) ∧
      (dlq.after ops).pop.1 = (dlq.after ops).entries.head? ∧
      (dlq.after ops).pop.2.entries = (dlq.after ops).entries.tail ∧
      (dlq.after ops).totalReceived = (pushes ops).length := by
  have hpos : 0 < maxsize := hmaxsize
  refine ⟨_, dif_pos hpos, fun ops => ?_⟩
  generalize hdlq : DeadLetterQueue.mk maxsize.toNat (Int.pos_iff_toNat_pos.mp hpos) [] 0 = dlq
  have hretains : Retains maxsize.toNat ops (dlq.after ops) :=
    retains_after (by rw [← hdlq]) (by rw [← hdlq]) (by rw [← hdlq]) ops
  have hcast : (maxsize.toNat : ℤ) = maxsize := Int.toNat_of_nonneg hpos.le
  have hlength := hretains.length_le
  refine ⟨by omega, hretains.window.trans (pushes_sinceClear_suffix ops), ?_, fun entry => ?_,
    (pop_entries _).1, (pop_entries _).2, hretains.totalReceived_eq⟩
  · rintro ops₁ ops₂ rfl hpush
    exact hretains.entries_eq_nil hpush
  · obtain ⟨evicted, hevicted, hone, hfull⟩ := push_evicts (dlq.after ops) entry
    refine ⟨evicted, hevicted, hone, fun hne => ?_⟩
    have hge := hfull hne
    rw [hretains.maxsize_eq] at hge
    omega

/-- An entry. -/
def letter (reason : String) : DeadLetterEntry :=
  { envelope := { sender := "agent-a", receiver := "agent-b", messageId := "m1", createdAt := 0 }
    reason := reason, deadLetteredAt := 0 }

/-- Three pushes into a queue of two, and a pop. -/
theorem deadLetter_retention_two :
    (1 : ℤ) ≤ 2 ∧ ∃ dlq, init 2 = .ok dlq ∧
      ((dlq.after
        [.push (letter "a"), .push (letter "b"), .push (letter "c"), .pop]).entries.length : ℤ) ≤ 2
    := by
  have hpos : (1 : ℤ) ≤ 2 := by decide
  obtain ⟨dlq, hinit, hretains⟩ := deadLetter_retention hpos
  exact ⟨hpos, dlq, hinit, (hretains _).1⟩

/-! ## Listing -/

/-- Listing with a limit gives the latest matching entries, as many as the limit allows and no more,
unless the limit is 0 and there are matching entries. -/
theorem listEntries_limit_iff (dlq : DeadLetterQueue) (reasonFilter : Option String) (k : ℕ) :
    dlq.listEntries reasonFilter (some k) =
          (dlq.matching reasonFilter).rtake (min k (dlq.matching reasonFilter).length) ∧
        (dlq.listEntries reasonFilter (some k)).length ≤ k ↔
      (k = 0 → dlq.matching reasonFilter = []) := by
  have hlist : dlq.listEntries reasonFilter (some k) = sliceFrom (-k) (dlq.matching reasonFilter) :=
    rfl
  rw [hlist, rtake_min_length, sliceFrom_neg_eq_rtake_iff]
  refine and_iff_left_of_imp fun hzero => ?_
  rw [(sliceFrom_neg_eq_rtake_iff k _).mpr hzero, List.rtake, List.length_drop]
  omega

/-- With the limit 0 the one entry is returned. -/
theorem listEntries_zero :
    ∃ dlq, init 10 = .ok dlq ∧
      (dlq.after [.push (letter "x")]).listEntries none (some 0) = [letter "x"] ∧
      ¬ ((dlq.after [.push (letter "x")]).listEntries none (some 0)).length ≤ 0 := by
  exact ⟨_, rfl, by decide, by decide⟩

end MeshRouter.Broker.DeadLetterQueue
