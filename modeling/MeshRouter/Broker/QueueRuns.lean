import MeshRouter.Broker.Queue
import MeshRouter.Lib.Runs

/-!
# Runs of the priority queue

A queue that is used by `put`, `put_nowait`, `get` and `get_nowait` calls in any order. A `put` that
finds the queue full waits with the item that it made, and enters when it is resumed and there is
room; it may be cancelled before. A `get` takes its turns one at a time, and anything may happen
between two of them. The clock is set to any time.

The log tells for every item when it was made, when it entered the queue and how it left it, the
latest event first. `order_and_conservation` says that an item leaves before the others that are
present, and that the counters count what the log says.
-/

namespace MeshRouter.Broker

open Lib Messages

/-- What happens to an item. -/
inductive QueueEvent where
  /-- `put` or `put_nowait` was called and made the item. -/
  | called (item : QueueItem)
  | entered (item : QueueItem)
  | returned (item : QueueItem)
  /-- A `get` dropped the item at the given time. -/
  | discarded (item : QueueItem) (now : ℚ)
deriving DecidableEq

/-- A call on the queue, a turn of a call that waited, or a change of the clock. -/
inductive QueueAction where
  | put (envelope : MessageEnvelope)
  | resumePut (item : QueueItem)
  | cancelPut (item : QueueItem)
  | putNowait (envelope : MessageEnvelope)
  | get
  | getNowait
  | setClock (now : ℚ)
deriving DecidableEq

/-- A queue, the clock, and the items of the `put` calls that wait. -/
structure QueueSystem where
  queue : PriorityMessageQueue
  now : ℚ
  waiting : List QueueItem := []
  log : List QueueEvent := []

/-- The item that an event takes out of the queue. -/
def QueueEvent.left : QueueEvent → Option QueueItem
  | .called _ => none
  | .entered _ => none
  | .returned item => some item
  | .discarded item _ => some item

/-- The items that were made, the latest first. -/
def calledItems (log : List QueueEvent) : List QueueItem :=
  log.filterMap fun e => match e with
    | .called item => some item
    | _ => none

/-- The items that entered. -/
def enteredItems (log : List QueueEvent) : List QueueItem :=
  log.filterMap fun e => match e with
    | .entered item => some item
    | _ => none

/-- The items that left. -/
def leftItems (log : List QueueEvent) : List QueueItem := log.filterMap QueueEvent.left

/-- The items that were dropped because they had expired. -/
def discardedItems (log : List QueueEvent) : List QueueItem :=
  log.filterMap fun e => match e with
    | .discarded item _ => some item
    | _ => none

/-- The items that entered and did not leave. -/
def presentItems : List QueueEvent → List QueueItem
  | [] => []
  | .called _ :: log => presentItems log
  | .entered item :: log => item :: presentItems log
  | .returned item :: log => (presentItems log).erase item
  | .discarded item _ :: log => (presentItems log).erase item

namespace QueueSystem

/-- A new queue. -/
def init (maxsize : ℤ) (discardExpired : Bool) (now : ℚ) : QueueSystem :=
  { queue := .init maxsize discardExpired, now := now }

/-- The state after an action, or `none` if the call has to wait. -/
def step (s : QueueSystem) : QueueAction → Option QueueSystem
  | .put envelope =>
    let (item, queue) := s.queue.makeItem envelope s.now
    match queue.put item with
    | some queue => some { s with queue := queue, log := .entered item :: .called item :: s.log }
    | none =>
      some { s with
        queue := queue
        waiting := s.waiting ++ [item]
        log := .called item :: s.log }
  | .resumePut item =>
    if item ∈ s.waiting then
      (s.queue.put item).map fun queue =>
        { s with
          queue := queue
          waiting := s.waiting.erase item
          log := .entered item :: s.log }
    else
      none
  | .cancelPut item => some { s with waiting := s.waiting.erase item }
  | .putNowait envelope =>
    let (item, _) := s.queue.makeItem envelope s.now
    match s.queue.putNowait envelope s.now with
    | (.ok (), queue) =>
      some { s with queue := queue, log := .entered item :: .called item :: s.log }
    | (.error _, queue) => some { s with queue := queue, log := .called item :: s.log }
  | .get =>
    match s.queue.getRound s.now, s.queue.items with
    | some (some item, queue), _ => some { s with queue := queue, log := .returned item :: s.log }
    | some (none, queue), item :: _ =>
      some { s with queue := queue, log := .discarded item s.now :: s.log }
    | _, _ => none
  | .getNowait =>
    match s.queue.getNowait with
    | some (item, queue) => some { s with queue := queue, log := .returned item :: s.log }
    -- `QueueEmpty` is raised.
    | none => some s
  | .setClock now => some { s with now := now }

end QueueSystem

/-- An item may leave the queue after the log `older`: it is present, it comes before the others
that are, and those of its priority were made after it. -/
structure LeavesFirst (item : QueueItem) (older : List QueueEvent) : Prop where
  present : item ∈ presentItems older
  least : ∀ other ∈ presentItems older, other ≠ item → item.key < other.key
  arrival : ∀ other ∈ presentItems older, other ≠ item →
    other.priorityValue = item.priorityValue → [other, item].Sublist (calledItems older)

/-- The log of a queue accounts for its contents and its counters. -/
structure QueueTracked (discardExpired : Bool) (s : QueueSystem) : Prop where
  config : s.queue.discardExpired = discardExpired
  items : s.queue.items.Perm (presentItems s.log)
  entered : (enteredItems s.log).Perm (leftItems s.log ++ presentItems s.log)
  nodup : (s.waiting ++ enteredItems s.log).Nodup
  made : s.waiting ++ enteredItems s.log ⊆ calledItems s.log
  order : (calledItems s.log).Pairwise fun a b => b.sequence < a.sequence
  bound : ∀ item ∈ calledItems s.log, item.sequence < s.queue.sequence
  totalEnqueued : s.queue.totalEnqueued = (enteredItems s.log).length
  totalDequeued : s.queue.totalDequeued = (leftItems s.log).length
  totalDiscarded : s.queue.totalDiscarded = (discardedItems s.log).length
  served : ∀ e older item, e :: older <:+ s.log → e.left = some item → LeavesFirst item older
  expired : ∀ item now, .discarded item now ∈ s.log →
    discardExpired = true ∧ item.envelope.isExpired now = true

/-- In a list in decreasing order, a member comes before a smaller one. -/
theorem pair_sublist_of_lt {items : List QueueItem}
    (horder : items.Pairwise fun a b => b.sequence < a.sequence) {a b : QueueItem} (ha : a ∈ items)
    (hb : b ∈ items) (hlt : b.sequence < a.sequence) : [a, b].Sublist items := by
  induction items with
  | nil => cases ha
  | cons c items ih =>
    obtain ⟨hc, horder⟩ := List.pairwise_cons.mp horder
    rcases List.mem_cons.mp ha with rfl | ha
    · -- The larger one is the first.
      rcases List.mem_cons.mp hb with rfl | hb
      · exact absurd hlt (lt_irrefl _)
      · exact (List.singleton_sublist.mpr hb).cons_cons a
    · rcases List.mem_cons.mp hb with heq | hb
      · rw [heq] at hlt
        exact absurd (hc a ha) (not_lt.mpr hlt.le)
      · exact (ih horder ha hb).cons c

/-- The items that were dropped are among those that left. -/
theorem discardedItems_sublist (log : List QueueEvent) :
    (discardedItems log).Sublist (leftItems log) := by
  induction log with
  | nil => exact List.Sublist.slnil
  | cons e log ih =>
    cases e with
    | called | entered => exact ih
    | returned item => exact ih.cons item
    | discarded item now => exact ih.cons_cons item

namespace QueueTracked

variable {discardExpired : Bool} {s t : QueueSystem}

/-- A new queue has an empty log. -/
theorem init (maxsize : ℤ) (discardExpired : Bool) (now : ℚ) :
    QueueTracked discardExpired (.init maxsize discardExpired now) where
  config := rfl
  items := List.Perm.refl []
  entered := List.Perm.refl []
  nodup := List.nodup_nil
  made := List.nil_subset _
  order := List.Pairwise.nil
  bound := by simp [QueueSystem.init, calledItems]
  totalEnqueued := rfl
  totalDequeued := rfl
  totalDiscarded := rfl
  served := by simp [QueueSystem.init]
  expired := by simp [QueueSystem.init]

/-- An item that is present was made. -/
theorem called_of_present (h : QueueTracked discardExpired s) {item : QueueItem}
    (hitem : item ∈ presentItems s.log) : item ∈ calledItems s.log := by
  have hentered : item ∈ enteredItems s.log :=
    h.entered.mem_iff.mpr (List.mem_append_right _ hitem)
  exact h.made (List.mem_append_right _ hentered)

/-- The next sequence number is that of no item. -/
theorem fresh (h : QueueTracked discardExpired s) {item : QueueItem}
    (hseq : item.sequence = s.queue.sequence) : item ∉ calledItems s.log := fun hmem =>
  (h.bound item hmem).ne hseq

/-- A call makes an item, which waits to enter. -/
theorem call (h : QueueTracked discardExpired s) (envelope : MessageEnvelope) (now : ℚ) :
    QueueTracked discardExpired { s with
      queue := (s.queue.makeItem envelope now).2
      waiting := s.waiting ++ [(s.queue.makeItem envelope now).1]
      log := .called (s.queue.makeItem envelope now).1 :: s.log } := by
  set item := (s.queue.makeItem envelope now).1
  have hseq : item.sequence = s.queue.sequence := rfl
  have hnew := h.fresh hseq
  have hperm : (s.waiting ++ [item] ++ enteredItems s.log).Perm
      (item :: (s.waiting ++ enteredItems s.log)) := by
    rw [List.append_assoc, List.singleton_append]
    exact List.perm_middle
  refine ⟨h.config, h.items, h.entered, ?_, ?_, ?_, ?_, h.totalEnqueued, h.totalDequeued,
    h.totalDiscarded, ?_, ?_⟩
  · exact hperm.nodup_iff.mpr (List.nodup_cons.mpr ⟨fun hmem => hnew (h.made hmem), h.nodup⟩)
  · intro x hx
    rcases List.mem_cons.mp (hperm.mem_iff.mp hx) with rfl | hx
    · exact List.mem_cons_self
    · exact List.mem_cons_of_mem _ (h.made hx)
  · exact List.pairwise_cons.mpr ⟨fun x hx => hseq ▸ h.bound x hx, h.order⟩
  · intro x hx
    change x.sequence < s.queue.sequence + 1
    rcases List.mem_cons.mp hx with rfl | hx
    · omega
    · exact Nat.lt_succ_of_lt (h.bound x hx)
  · intro e older x hsuffix hleft
    rcases List.suffix_cons_iff.mp hsuffix with heq | hsuffix
    · obtain ⟨rfl, rfl⟩ := List.cons.inj heq
      cases hleft
    · exact h.served e older x hsuffix hleft
  · intro x time hmem
    rcases List.mem_cons.mp hmem with heq | hmem
    · cases heq
    · exact h.expired x time hmem

/-- An item that waits enters. -/
theorem enter (h : QueueTracked discardExpired s) {item : QueueItem} (hitem : item ∈ s.waiting)
    {queue : PriorityMessageQueue} (hput : s.queue.put item = some queue) :
    QueueTracked discardExpired { s with
      queue := queue
      waiting := s.waiting.erase item
      log := .entered item :: s.log } := by
  obtain ⟨items, hitems, rfl⟩ := PriorityMessageQueue.put_cases hput
  -- The item moves from those that wait to those that entered.
  have hperm : (s.waiting.erase item ++ item :: enteredItems s.log).Perm
      (s.waiting ++ enteredItems s.log) := by
    refine List.perm_middle.trans ?_
    rw [← List.cons_append]
    exact (List.perm_cons_erase hitem).symm.append_right _
  refine ⟨h.config, hitems.trans (h.items.cons item), ?_, hperm.nodup_iff.mpr h.nodup, ?_, h.order,
    h.bound, congrArg Nat.succ h.totalEnqueued, h.totalDequeued, h.totalDiscarded, ?_, ?_⟩
  · exact (h.entered.cons item).trans List.perm_middle.symm
  · intro x hx
    exact h.made (hperm.mem_iff.mp hx)
  · intro e older x hsuffix hleft
    rcases List.suffix_cons_iff.mp hsuffix with heq | hsuffix
    · obtain ⟨rfl, rfl⟩ := List.cons.inj heq
      cases hleft
    · exact h.served e older x hsuffix hleft
  · intro x time hmem
    rcases List.mem_cons.mp hmem with heq | hmem
    · cases heq
    · exact h.expired x time hmem

/-- An item that waits is given up. -/
theorem cancel (h : QueueTracked discardExpired s) (item : QueueItem) :
    QueueTracked discardExpired { s with waiting := s.waiting.erase item } := by
  have hsublist := (List.erase_sublist (a := item) (l := s.waiting)).append_right
    (enteredItems s.log)
  exact { h with
    nodup := h.nodup.sublist hsublist
    made := fun x hx => h.made (hsublist.subset hx) }

/-- The first item of the queue comes before the others that are present. -/
theorem leavesFirst (h : QueueTracked discardExpired s) {item : QueueItem} {rest : List QueueItem}
    (hitems : s.queue.items = item :: rest) : LeavesFirst item s.log := by
  have hpresent : item ∈ presentItems s.log := by
    rw [← h.items.mem_iff, hitems]
    exact List.mem_cons_self
  have hleast : ∀ other ∈ presentItems s.log, other ≠ item → item.key < other.key := by
    intro other hother hne
    have hsorted : (item :: rest).Pairwise fun a b => a.key ≤ b.key := hitems ▸ s.queue.queue.sorted
    have hrest : other ∈ rest := by
      rw [← h.items.mem_iff, hitems] at hother
      exact (List.mem_cons.mp hother).resolve_left hne
    refine lt_of_le_of_ne ((List.pairwise_cons.mp hsorted).1 other hrest) fun hkey => hne ?_
    -- Items with one key have one sequence number, and were made by one call.
    have hseq : other.sequence = item.sequence :=
      (congrArg (fun k => (ofLex k).2) hkey).symm
    have hdistinct : ((calledItems s.log).map QueueItem.sequence).Nodup :=
      List.pairwise_map.mpr (h.order.imp fun hlt => hlt.ne')
    exact List.inj_on_of_nodup_map hdistinct (h.called_of_present hother)
      (h.called_of_present hpresent) hseq
  refine ⟨hpresent, hleast, fun other hother hne hpriority => ?_⟩
  have hlt : item.sequence < other.sequence := by
    rcases Prod.Lex.lt_iff.mp (hleast other hother hne) with hlt | ⟨-, hlt⟩
    · exact absurd hpriority.symm hlt.ne
    · exact hlt
  exact pair_sublist_of_lt h.order (h.called_of_present hother) (h.called_of_present hpresent) hlt

/-- The first item of the queue leaves. -/
theorem take (h : QueueTracked discardExpired s) {e : QueueEvent} {item : QueueItem}
    {queue : PriorityMessageQueue}
    (he : e = .returned item ∨
      e = .discarded item s.now ∧ discardExpired = true ∧ item.envelope.isExpired s.now = true)
    (htakes : PriorityMessageQueue.Takes s.queue queue item (discardedItems [e]).length) :
    QueueTracked discardExpired { s with queue := queue, log := e :: s.log } := by
  have hfirst := h.leavesFirst htakes.items
  have hleft : leftItems (e :: s.log) = item :: leftItems s.log := by
    rcases he with rfl | ⟨rfl, -⟩ <;> rfl
  have hpresent : presentItems (e :: s.log) = (presentItems s.log).erase item := by
    rcases he with rfl | ⟨rfl, -⟩ <;> rfl
  have hentered : enteredItems (e :: s.log) = enteredItems s.log := by
    rcases he with rfl | ⟨rfl, -⟩ <;> rfl
  have hcalled : calledItems (e :: s.log) = calledItems s.log := by
    rcases he with rfl | ⟨rfl, -⟩ <;> rfl
  have hdiscarded : (discardedItems (e :: s.log)).length =
      (discardedItems s.log).length + (discardedItems [e]).length := by
    rcases he with rfl | ⟨rfl, -⟩ <;> rfl
  refine ⟨htakes.discardExpired.trans h.config, ?_, ?_, ?_, ?_, ?_, ?_, ?_, ?_, ?_, ?_, ?_⟩
  · change queue.items.Perm (presentItems (e :: s.log))
    rw [hpresent]
    have hperm := (htakes.items ▸ h.items).erase item
    rwa [List.erase_cons_head] at hperm
  · change (enteredItems (e :: s.log)).Perm (leftItems (e :: s.log) ++ presentItems (e :: s.log))
    rw [hentered, hleft, hpresent]
    refine h.entered.trans (((List.perm_cons_erase hfirst.present).append_left _).trans ?_)
    exact List.perm_middle
  · change (s.waiting ++ enteredItems (e :: s.log)).Nodup
    rw [hentered]
    exact h.nodup
  · change s.waiting ++ enteredItems (e :: s.log) ⊆ calledItems (e :: s.log)
    rw [hentered, hcalled]
    exact h.made
  · change (calledItems (e :: s.log)).Pairwise fun a b => b.sequence < a.sequence
    rw [hcalled]
    exact h.order
  · change ∀ x ∈ calledItems (e :: s.log), x.sequence < queue.sequence
    rw [hcalled, htakes.sequence]
    exact h.bound
  · change queue.totalEnqueued = (enteredItems (e :: s.log)).length
    rw [hentered, htakes.totalEnqueued]
    exact h.totalEnqueued
  · change queue.totalDequeued = (leftItems (e :: s.log)).length
    rw [hleft, htakes.totalDequeued, List.length_cons, h.totalDequeued]
  · change queue.totalDiscarded = (discardedItems (e :: s.log)).length
    rw [hdiscarded, htakes.totalDiscarded, h.totalDiscarded]
  · intro e' older x hsuffix hx
    rcases List.suffix_cons_iff.mp hsuffix with heq | hsuffix
    · obtain ⟨rfl, rfl⟩ := List.cons.inj heq
      have hitem : x = item := by
        rcases he with rfl | ⟨rfl, -⟩ <;> exact (Option.some.inj hx).symm
      exact hitem ▸ hfirst
    · exact h.served e' older x hsuffix hx
  · intro x time hmem
    rcases List.mem_cons.mp hmem with heq | hmem
    · rcases he with rfl | ⟨rfl, hdiscards, hexpired⟩
      · cases heq
      · obtain ⟨rfl, rfl⟩ := QueueEvent.discarded.inj heq
        exact ⟨hdiscards, hexpired⟩
    · exact h.expired x time hmem

/-- The item of a call that did not have to wait is no more among those that do. -/
theorem erase_waiting (h : QueueTracked discardExpired s) (item : QueueItem)
    (hseq : item.sequence = s.queue.sequence) : (s.waiting ++ [item]).erase item = s.waiting := by
  have hnew : item ∉ s.waiting := fun hmem =>
    h.fresh hseq (h.made (List.mem_append_left _ hmem))
  rw [List.erase_append_right _ hnew, List.erase_cons_head, List.append_nil]

/-- A step keeps the account. -/
theorem step (h : QueueTracked discardExpired s) {a : QueueAction} (hst : s.step a = some t) :
    QueueTracked discardExpired t := by
  cases a with
  | put envelope =>
    have hcall := h.call envelope s.now
    have herase := h.erase_waiting (s.queue.makeItem envelope s.now).1 rfl
    unfold QueueSystem.step at hst
    dsimp only at hst
    split at hst
    · rename_i queue hput
      obtain rfl := Option.some.inj hst
      have henter := hcall.enter (List.mem_append_right _ List.mem_cons_self) hput
      dsimp only at henter
      rwa [herase] at henter
    · obtain rfl := Option.some.inj hst
      exact hcall
  | resumePut item =>
    unfold QueueSystem.step at hst
    dsimp only at hst
    split_ifs at hst with hitem
    obtain ⟨queue, hput, rfl⟩ := Option.map_eq_some_iff.mp hst
    exact h.enter hitem hput
  | cancelPut item =>
    obtain rfl := Option.some.inj hst
    exact h.cancel item
  | putNowait envelope =>
    have hcall := h.call envelope s.now
    have herase := h.erase_waiting (s.queue.makeItem envelope s.now).1 rfl
    unfold QueueSystem.step at hst
    dsimp only at hst
    rcases s.queue.putNowait_cases envelope s.now with ⟨queue, hput, heq⟩ | heq
    · rw [heq] at hst
      obtain rfl := Option.some.inj hst
      have henter := hcall.enter (List.mem_append_right _ List.mem_cons_self) hput
      dsimp only at henter
      rwa [herase] at henter
    -- The item of a call that raised is given up.
    · rw [heq] at hst
      obtain rfl := Option.some.inj hst
      have hcancel := hcall.cancel (s.queue.makeItem envelope s.now).1
      dsimp only at hcancel
      rwa [herase] at hcancel
  | get =>
    unfold QueueSystem.step at hst
    dsimp only at hst
    split at hst
    · rename_i item queue hround
      obtain rfl := Option.some.inj hst
      obtain ⟨first, ⟨-, htaken, -⟩ | ⟨htaken, htakes⟩⟩ :=
        PriorityMessageQueue.getRound_takes hround
      · cases htaken
      · obtain rfl := Option.some.inj htaken
        exact h.take (Or.inl rfl) htakes
    · rename_i queue item rest hround hitems
      obtain rfl := Option.some.inj hst
      obtain ⟨first, ⟨hexpired, -, htakes⟩ | ⟨htaken, -⟩⟩ :=
        PriorityMessageQueue.getRound_takes hround
      · obtain rfl : first = item := (List.cons.inj (htakes.items.symm.trans hitems)).1
        rw [h.config, Bool.and_eq_true] at hexpired
        exact h.take (Or.inr ⟨rfl, hexpired⟩) htakes
      · cases htaken
    · cases hst
  | getNowait =>
    unfold QueueSystem.step at hst
    dsimp only at hst
    split at hst
    · rename_i item queue hget
      obtain rfl := Option.some.inj hst
      exact h.take (Or.inl rfl) (PriorityMessageQueue.getNowait_takes hget)
    · obtain rfl := Option.some.inj hst
      exact h
  | setClock now =>
    obtain rfl := Option.some.inj hst
    exact { h with }

/-- The account holds in every state of a run. -/
theorem run {maxsize : ℤ} {now : ℚ} {as : List QueueAction}
    (h : Lib.run QueueSystem.step (.init maxsize discardExpired now) as = some s) :
    QueueTracked discardExpired s :=
  run_induction (I := QueueTracked discardExpired) (fun _ _ _ hI hst => hI.step hst)
    (.init maxsize discardExpired now) h

end QueueTracked

/-- In every state of every run: an item left the queue before the others that were present, in
the order of priorities and, within a priority, of arrival; only expired items were dropped; an item
that entered left once or is in the queue; the counters agree with the contents; and a `put_nowait`
that raises keeps the contents and the counters. -/
theorem order_and_conservation {maxsize : ℤ} {discardExpired : Bool} {now : ℚ}
    {as : List QueueAction} {s : QueueSystem}
    (h : run QueueSystem.step (.init maxsize discardExpired now) as = some s) :
    (∀ e older item, e :: older <:+ s.log → e.left = some item → LeavesFirst item older) ∧
    (∀ item time, .discarded item time ∈ s.log →
      discardExpired = true ∧ item.envelope.isExpired time = true) ∧
    (enteredItems s.log).Nodup ∧
    (enteredItems s.log).Perm (leftItems s.log ++ s.queue.items) ∧
    s.queue.totalEnqueued = s.queue.totalDequeued + s.queue.qsize ∧
    s.queue.totalDiscarded ≤ s.queue.totalDequeued ∧
    ∀ envelope time error q, s.queue.putNowait envelope time = (.error error, q) →
      q.queue = s.queue.queue ∧ q.qsize = s.queue.qsize ∧
      q.totalEnqueued = s.queue.totalEnqueued ∧ q.totalDequeued = s.queue.totalDequeued ∧
      q.totalDiscarded = s.queue.totalDiscarded := by
  have htr := QueueTracked.run h
  have hentered := htr.entered.trans (htr.items.symm.append_left _)
  refine ⟨htr.served, htr.expired, (List.nodup_append.mp htr.nodup).2.1, hentered, ?_, ?_, ?_⟩
  · rw [htr.totalEnqueued, htr.totalDequeued, hentered.length_eq, List.length_append]
    rfl
  · rw [htr.totalDiscarded, htr.totalDequeued]
    exact (discardedItems_sublist s.log).length_le
  · intro envelope time error q hput
    rcases s.queue.putNowait_cases envelope time with ⟨q', -, heq⟩ | heq
    · cases (Prod.mk.inj (heq.symm.trans hput)).1
    · obtain rfl := (Prod.mk.inj (heq.symm.trans hput)).2
      exact ⟨rfl, rfl, rfl, rfl, rfl⟩

/-- A message for a queue. -/
def queued (messageId : String) (priority : Priority) (ttlSeconds : Option ℚ) : MessageEnvelope :=
  { sender := "agent-a", receiver := "agent-b", messageId := messageId, createdAt := 0,
    priority := priority, ttlSeconds := ttlSeconds }

/-- A queue of two messages gets a third, which waits, and one expires. -/
def waitingPut : List QueueAction :=
  [.put (queued "m0" .NORMAL (some 1)), .put (queued "m1" .HIGH none),
    .put (queued "m2" .HIGH none), .putNowait (queued "m3" .CRITICAL none), .get,
    .resumePut ⟨1, 2, 0, queued "m2" .HIGH none⟩, .setClock 2, .getNowait, .get]

/-- `order_and_conservation` on a run in which a put waits, a put is refused and a message expires.
-/
theorem order_and_conservation_waitingPut :
    ∃ s, run QueueSystem.step (.init 2 true 0) waitingPut = some s ∧
      (leftItems s.log).map (·.envelope.messageId) = ["m0", "m2", "m1"] ∧
      s.queue.totalEnqueued = s.queue.totalDequeued + s.queue.qsize ∧
      s.queue.totalDiscarded ≤ s.queue.totalDequeued := by
  obtain ⟨s, hs, hleft⟩ := Option.map_eq_some_iff.mp
    (show (run QueueSystem.step (.init 2 true 0) waitingPut).map
      (fun s => (leftItems s.log).map (·.envelope.messageId)) = some ["m0", "m2", "m1"] by
        decide +kernel)
  obtain ⟨-, -, -, -, hcount, hdiscarded, -⟩ := order_and_conservation hs
  exact ⟨s, hs, hleft, hcount, hdiscarded⟩

end MeshRouter.Broker
