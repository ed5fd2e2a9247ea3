import MeshRouter.Broker.QueueRuns

/-!
# How long an item waits

An item leaves the priority queue when those before it have left, and only a more urgent one can
come before it later: a higher priority, or the same priority with an older sequence number, which a
put has that had to wait for room. `ahead` counts the items before an item and `urgent` those that
came before it later. `Position` is the balance of the two with the items that have left since, kept
by every step, and `wait_exact` reads off it after how many others an item leaves: nothing else
delays it, and it cannot starve behind its own priority.
-/

namespace MeshRouter.Broker

open Lib Messages

variable {discardExpired : Bool} {s t : QueueSystem} {item : QueueItem}

/-- How many items in the queue come before the item. -/
def QueueSystem.ahead (s : QueueSystem) (item : QueueItem) : ℕ :=
  s.queue.items.countP fun other => decide (other.key < item.key)

/-- How many items that come before the item entered. -/
def urgent (item : QueueItem) (events : List QueueEvent) : ℕ :=
  (enteredItems events).countP fun other => decide (other.key < item.key)

/-- What a step does to the queue, and how it is logged. -/
inductive Logged (s t : QueueSystem) : List QueueEvent → Prop where
  /-- No item comes or goes. -/
  | idle {events : List QueueEvent} (hentered : enteredItems events = [])
    (hleft : leftItems events = []) (hitems : t.queue.items = s.queue.items) : Logged s t events
  /-- An item enters. -/
  | entered {events : List QueueEvent} {other : QueueItem}
    (hentered : enteredItems events = [other]) (hleft : leftItems events = [])
    (hitems : t.queue.items.Perm (other :: s.queue.items)) : Logged s t events
  /-- The first item leaves. -/
  | left {e : QueueEvent} {first : QueueItem} (hleft : e.left = some first)
    (hitems : s.queue.items = first :: t.queue.items) : Logged s t [e]

/-- An item that leaves does not enter. -/
theorem enteredItems_of_left {e : QueueEvent} {first : QueueItem} (hleft : e.left = some first) :
    enteredItems [e] = [] ∧ leftItems [e] = [first] := by
  cases e with
  | called | entered => cases hleft
  | returned other | discarded other now =>
    obtain rfl := Option.some.inj hleft
    exact ⟨rfl, rfl⟩

/-- Every step is logged. -/
theorem step_logged {a : QueueAction} (hst : s.step a = some t) :
    ∃ events, t.log = events ++ s.log ∧ Logged s t events := by
  have hput : ∀ {q q' : PriorityMessageQueue} {other : QueueItem}, q.put other = some q' →
      q'.items.Perm (other :: q.items) := by
    intro q q' other hput
    obtain ⟨queue, hperm, rfl⟩ := PriorityMessageQueue.put_cases hput
    exact hperm
  unfold QueueSystem.step at hst
  cases a with
  | put envelope =>
    dsimp only at hst
    split at hst
    · rename_i queue hqueue
      have hperm := hput hqueue
      obtain rfl := Option.some.inj hst
      exact ⟨[.entered _, .called _], rfl, .entered rfl rfl hperm⟩
    · obtain rfl := Option.some.inj hst
      exact ⟨[.called _], rfl, .idle rfl rfl rfl⟩
  | resumePut other =>
    dsimp only at hst
    split_ifs at hst
    obtain ⟨queue, hqueue, rfl⟩ := Option.map_eq_some_iff.mp hst
    exact ⟨[.entered other], rfl, .entered rfl rfl (hput hqueue)⟩
  | cancelPut other =>
    obtain rfl := Option.some.inj hst
    exact ⟨[], rfl, .idle rfl rfl rfl⟩
  | putNowait envelope =>
    dsimp only at hst
    rcases s.queue.putNowait_cases envelope s.now with ⟨queue, hqueue, heq⟩ | heq
    · have hperm := hput hqueue
      rw [heq] at hst
      obtain rfl := Option.some.inj hst
      exact ⟨[.entered _, .called _], rfl, .entered rfl rfl hperm⟩
    · rw [heq] at hst
      obtain rfl := Option.some.inj hst
      exact ⟨[.called _], rfl, .idle rfl rfl rfl⟩
  | get =>
    dsimp only at hst
    split at hst
    · rename_i other queue hround
      obtain rfl := Option.some.inj hst
      obtain ⟨first, ⟨-, htaken, -⟩ | ⟨htaken, htakes⟩⟩ :=
        PriorityMessageQueue.getRound_takes hround
      · cases htaken
      · obtain rfl := Option.some.inj htaken
        exact ⟨[.returned other], rfl, .left rfl htakes.items⟩
    · rename_i queue other rest hround hitems
      obtain rfl := Option.some.inj hst
      obtain ⟨first, ⟨-, -, htakes⟩ | ⟨htaken, -⟩⟩ := PriorityMessageQueue.getRound_takes hround
      · obtain rfl : first = other := (List.cons.inj (htakes.items.symm.trans hitems)).1
        exact ⟨[.discarded first s.now], rfl, .left rfl htakes.items⟩
      · cases htaken
    · cases hst
  | getNowait =>
    dsimp only at hst
    split at hst
    · rename_i other queue hget
      obtain rfl := Option.some.inj hst
      exact ⟨[.returned other], rfl,
        .left rfl (PriorityMessageQueue.getNowait_takes hget).items⟩
    · obtain rfl := Option.some.inj hst
      exact ⟨[], rfl, .idle rfl rfl rfl⟩
  | setClock now =>
    obtain rfl := Option.some.inj hst
    exact ⟨[], rfl, .idle rfl rfl rfl⟩

/-- Where an item stands after some events: it is in the queue, and what left since was before it;
or it left, after all that was before it. -/
inductive Position (item : QueueItem) (start : ℕ) (t : QueueSystem) : List QueueEvent → Prop where
  | queued {events : List QueueEvent} (hitem : item ∈ t.queue.items)
    (hcount : (leftItems events).length + t.ahead item = start + urgent item events) :
    Position item start t events
  | gone {later earlier : List QueueEvent} {e : QueueEvent} (hitem : item ∉ t.queue.items)
    (hleft : e.left = some item)
    (hcount : (leftItems earlier).length = start + urgent item earlier) :
    Position item start t (later ++ e :: earlier)

/-- An item that has left does not come back. -/
theorem notMem_of_left (htracked : QueueTracked discardExpired t)
    (hleft : item ∈ leftItems t.log) : item ∉ t.queue.items := by
  intro hitem
  have hnodup : (enteredItems t.log).Nodup := (List.nodup_append.mp htracked.nodup).2.1
  rw [htracked.entered.nodup_iff, List.nodup_append] at hnodup
  exact hnodup.2.2 item hleft item (htracked.items.mem_iff.mp hitem) rfl

/-- The first item of the queue comes before an item that is in it, unless it is the item itself. -/
theorem ahead_of_left (htracked : QueueTracked discardExpired s) {first : QueueItem}
    (hitems : s.queue.items = first :: t.queue.items) (hitem : item ∈ s.queue.items) :
    (first = item ∧ s.ahead item = 0) ∨
      (first ≠ item ∧ item ∈ t.queue.items ∧ s.ahead item = t.ahead item + 1) := by
  have hleast := (htracked.leavesFirst hitems).least
  by_cases hfirst : first = item
  · subst hfirst
    refine .inl ⟨rfl, List.countP_eq_zero.mpr fun other hother => ?_⟩
    have hpresent := htracked.items.mem_iff.mp hother
    by_cases hne : other = first
    · simp [hne]
    · simpa using (hleast other hpresent hne).le
  · have hlt : first.key < item.key :=
      hleast item (htracked.items.mem_iff.mp hitem) (Ne.symm hfirst)
    have hrest : item ∈ t.queue.items := by
      rw [hitems] at hitem
      exact (List.mem_cons.mp hitem).resolve_left (Ne.symm hfirst)
    refine .inr ⟨hfirst, hrest, ?_⟩
    unfold QueueSystem.ahead
    rw [hitems, List.countP_cons_of_pos (by simpa using hlt)]

/-- A step keeps the balance. -/
theorem Position.step {start : ℕ} {past : List QueueEvent} (h : Position item start s past)
    (htracked : QueueTracked discardExpired s) (htracked' : QueueTracked discardExpired t)
    (hpast : ∃ older, s.log = past ++ older) {events : List QueueEvent}
    (hlog : t.log = events ++ s.log) (hlogged : Logged s t events) :
    Position item start t (events ++ past) := by
  have hurgent : ∀ earlier, urgent item (events ++ earlier) =
      urgent item events + urgent item earlier := by
    intro earlier
    unfold urgent enteredItems
    rw [List.filterMap_append, List.countP_append]
  have hlefts : (leftItems (events ++ past)).length =
      (leftItems events).length + (leftItems past).length := by
    unfold leftItems
    rw [List.filterMap_append, List.length_append]
  cases h with
  | queued hitem hcount =>
    cases hlogged with
    | idle hentered hleft hitems =>
      refine .queued (hitems ▸ hitem) ?_
      have hahead : t.ahead item = s.ahead item := by
        unfold QueueSystem.ahead
        rw [hitems]
      have hnone : urgent item events = 0 := by
        unfold urgent
        rw [hentered]
        rfl
      rw [hurgent, hnone, hlefts, hleft, hahead, List.length_nil]
      omega
    | @entered _ other hentered hleft hitems =>
      -- The item that enters is ahead of this one, or behind it.
      refine .queued (hitems.mem_iff.mpr (List.mem_cons_of_mem other hitem)) ?_
      have hahead : t.ahead item = s.ahead item + urgent item events := by
        unfold QueueSystem.ahead urgent
        rw [hitems.countP_eq, hentered, List.countP_cons, List.countP_singleton]
      rw [hurgent, hlefts, hleft, hahead, List.length_nil]
      omega
    | @left e first hleft hitems =>
      obtain ⟨hentered, hone⟩ := enteredItems_of_left hleft
      have hnone : urgent item [e] = 0 := by
        unfold urgent
        rw [hentered]
        rfl
      rcases ahead_of_left htracked hitems hitem with ⟨rfl, hzero⟩ | ⟨-, hrest, hahead⟩
      · -- The item is the first, so that it leaves.
        have hmem : first ∈ leftItems t.log := by
          rw [hlog]
          exact List.mem_filterMap.mpr ⟨e, List.mem_cons_self, hleft⟩
        rw [hzero, Nat.add_zero] at hcount
        have hgone : Position first start t ([] ++ e :: past) :=
          .gone (notMem_of_left htracked' hmem) hleft hcount
        exact hgone
      · refine .queued hrest ?_
        rw [hurgent, hnone, hlefts, hone, List.length_singleton]
        omega
  | @gone later earlier e hitem hleft hcount =>
    have hmem : item ∈ leftItems t.log := by
      obtain ⟨older, holder⟩ := hpast
      rw [hlog, holder]
      exact List.mem_filterMap.mpr ⟨e, by simp, hleft⟩
    rw [← List.append_assoc]
    exact .gone (notMem_of_left htracked' hmem) hleft hcount

/-- What a run adds to the log, and where an item stands after it that was in the queue. -/
theorem exists_position {as : List QueueAction} (htracked : QueueTracked discardExpired s)
    (hitem : item ∈ s.queue.items) (hrun : run QueueSystem.step s as = some t) :
    ∃ events, t.log = events ++ s.log ∧ Position item (s.ahead item) t events := by
  have hstart : Position item (s.ahead item) s [] := by
    refine .queued hitem ?_
    rw [leftItems, urgent, enteredItems, List.filterMap_nil, List.filterMap_nil, List.countP_nil,
      List.length_nil]
    exact Nat.add_comm _ _
  have hall : QueueTracked discardExpired t ∧
      ∃ events, t.log = events ++ s.log ∧ Position item (s.ahead item) t events := by
    refine run_induction (I := fun u => QueueTracked discardExpired u ∧
      ∃ events, u.log = events ++ s.log ∧ Position item (s.ahead item) u events) ?_
      ⟨htracked, [], rfl, hstart⟩ hrun
    rintro u a v ⟨hu, past, hpast, hposition⟩ hst
    have hv := hu.step hst
    obtain ⟨events, hlog, hlogged⟩ := step_logged hst
    refine ⟨hv, events ++ past, ?_, hposition.step hu hv ⟨s.log, hpast⟩ hlog hlogged⟩
    rw [hlog, hpast, List.append_assoc]
  exact hall.2

/-- How long an item waits, in every run of a queue from a state that it reached. While the item is
in the queue, as many items have left since as were ahead of it or came ahead of it later, less
those that still are. When it leaves, exactly the items have left that were ahead of it and those
that came ahead of it before. An item comes ahead of it later if it has a higher priority, or the
same priority and was made before it. -/
theorem wait_exact {maxsize : ℤ} {now : ℚ} {before as : List QueueAction}
    (hreach : run QueueSystem.step (.init maxsize discardExpired now) before = some s)
    (hitem : item ∈ s.queue.items) (hrun : run QueueSystem.step s as = some t) :
    ∃ events, t.log = events ++ s.log ∧
      (item ∈ t.queue.items →
        (leftItems events).length + t.ahead item = s.ahead item + urgent item events) ∧
      (item ∉ t.queue.items → ∃ later e earlier, events = later ++ e :: earlier ∧
        e.left = some item ∧ (leftItems earlier).length = s.ahead item + urgent item earlier) ∧
      urgent item events = (enteredItems events).countP fun other =>
        decide (other.priorityValue < item.priorityValue ∨
          other.priorityValue = item.priorityValue ∧ other.sequence < item.sequence) := by
  obtain ⟨events, hlog, hposition⟩ := exists_position (.run hreach) hitem hrun
  refine ⟨events, hlog, fun hqueued => ?_, fun hgone => ?_, ?_⟩
  · cases hposition with
    | queued hitem hcount => exact hcount
    | gone hgone => exact absurd hqueued hgone
  · cases hposition with
    | queued hitem hcount => exact absurd hitem hgone
    | gone hgone hleft hcount => exact ⟨_, _, _, rfl, hleft, hcount⟩
  · refine List.countP_congr fun other _ => ?_
    rw [decide_eq_true_eq, decide_eq_true_eq, Prod.Lex.lt_iff]
    exact Iff.rfl

/-- The item of a message of normal priority. -/
def normalItem : QueueItem := ⟨2, 0, 0, queued "m0" .NORMAL none⟩

/-- Another message of its priority and an urgent one are queued after it, and two are taken. -/
def urgentLater : List QueueAction :=
  [.put (queued "m1" .NORMAL none), .put (queued "m2" .CRITICAL none), .get, .get]

/-- `wait_exact` on these messages: the urgent one leaves first, and the other does not. -/
theorem wait_exact_urgentLater :
    ∃ s t events, run QueueSystem.step (.init 0 true 0) [.put normalItem.envelope] = some s ∧
      run QueueSystem.step s urgentLater = some t ∧ t.log = events ++ s.log ∧
      ∃ later e earlier, events = later ++ e :: earlier ∧ e.left = some normalItem ∧
        (leftItems earlier).length = s.ahead normalItem + urgent normalItem earlier := by
  obtain ⟨t, ht⟩ := Option.isSome_iff_exists.mp
    (show (run QueueSystem.step (.init 0 true 0)
      ([.put normalItem.envelope] ++ urgentLater)).isSome by decide +kernel)
  obtain ⟨s, hs, hst⟩ := run_append.mp ht
  have hin : (run QueueSystem.step (.init 0 true 0) [.put normalItem.envelope]).map
      (fun s => decide (normalItem ∈ s.queue.items)) = some true := by decide +kernel
  have hout : (run QueueSystem.step (.init 0 true 0)
      ([.put normalItem.envelope] ++ urgentLater)).map
        (fun t => decide (normalItem ∈ t.queue.items)) = some false := by decide +kernel
  rw [hs] at hin
  rw [ht] at hout
  have hitem : normalItem ∈ s.queue.items := of_decide_eq_true (Option.some.inj hin)
  have hgone : normalItem ∉ t.queue.items := of_decide_eq_false (Option.some.inj hout)
  obtain ⟨events, hlog, -, hleft, -⟩ := wait_exact hs hitem hst
  exact ⟨s, t, events, hs, hst, hlog, hleft hgone⟩

end MeshRouter.Broker
