import MeshRouter.Broker.Queue

/-!
# Getting an envelope without waiting

`get` of `broker/queue.py` as far as it comes without waiting, beside `get_nowait`. The loop of
`get` takes the expired items at the front, counts them as discarded, and goes on; `get_nowait`
takes the first item as it is. So the two come to the same exactly when `get` has nothing to drop
(`nowaitAgrees_iff`).
-/

namespace MeshRouter.Broker

open Lib Messages

namespace PriorityMessageQueue

/-- `get` at the time `now`, as far as it comes without waiting: the item of the envelope that it
returns, or none if it comes to wait at the empty queue. -/
def get (q : PriorityMessageQueue) (now : ℚ) : Option QueueItem × PriorityMessageQueue :=
  match _h : q.getRound now with
  | none => (none, q)
  | some (some item, q') => (some item, q')
  | some (none, q') => q'.get now
termination_by q.items.length
decreasing_by
  obtain ⟨item, hitems, -⟩ := getRound_cases _h
  rw [hitems, List.length_cons]
  exact Nat.lt_succ_self _

/-- Whether `get` drops an item at the time `now`. -/
def drops (q : PriorityMessageQueue) (now : ℚ) (item : QueueItem) : Bool :=
  q.discardExpired && item.envelope.isExpired now

/-- What a way to get an envelope comes to: the envelope, or none where `get` waits and `get_nowait`
raises `QueueEmpty`, and the contents and the counters that it leaves. -/
structure Got where
  envelope : Option MessageEnvelope
  items : List QueueItem
  totalEnqueued : ℕ
  totalDequeued : ℕ
  totalDiscarded : ℕ
deriving DecidableEq

/-- An item, or none, and the queue that is left. -/
def got (item : Option QueueItem) (q : PriorityMessageQueue) : Got :=
  ⟨item.map QueueItem.envelope, q.items, q.totalEnqueued, q.totalDequeued, q.totalDiscarded⟩

/-- What `get` comes to without waiting. -/
def gotByGet (q : PriorityMessageQueue) (now : ℚ) : Got := got (q.get now).1 (q.get now).2

/-- What `get_nowait` comes to. -/
def gotNowait (q : PriorityMessageQueue) : Got :=
  match q.getNowait with
  | some (item, q') => got (some item) q'
  | none => got none q

/-- `get` and `get_nowait` agree at the time `now`, and with `discard_expired` neither returns an
envelope that has expired. -/
structure NowaitAgrees (q : PriorityMessageQueue) (now : ℚ) : Prop where
  same : q.gotNowait = q.gotByGet now
  getLive : q.discardExpired = true →
    ∀ envelope ∈ (q.gotByGet now).envelope, envelope.isExpired now = false
  nowaitLive : q.discardExpired = true →
    ∀ envelope ∈ q.gotNowait.envelope, envelope.isExpired now = false

/-- A turn of `get` waits exactly when the queue is empty. -/
theorem getRound_eq_none {q : PriorityMessageQueue} {now : ℚ} :
    q.getRound now = none ↔ q.items = [] := by
  unfold getRound
  rw [Option.map_eq_none_iff]
  exact MinQueue.get_eq_none

/-- What a turn of `get` returns, it does not drop. -/
theorem getRound_keeps {q q' : PriorityMessageQueue} {now : ℚ} {item : QueueItem}
    (h : q.getRound now = some (some item, q')) : q.drops now item = false := by
  obtain ⟨first, -, htaken⟩ := getRound_cases h
  split_ifs at htaken with hexpired
  obtain rfl := Option.some.inj htaken
  exact Bool.eq_false_of_not_eq_true hexpired

/-- `get` drops the expired items in front of the first one that it keeps, counts them as dequeued
and as discarded, and returns that first one. -/
theorem gotByGet_eq (q : PriorityMessageQueue) (now : ℚ) :
    q.gotByGet now =
      { envelope := (q.items.dropWhile (q.drops now)).head?.map QueueItem.envelope
        items := (q.items.dropWhile (q.drops now)).tail
        totalEnqueued := q.totalEnqueued
        totalDequeued := q.totalDequeued + (q.items.takeWhile (q.drops now)).length +
          (q.items.dropWhile (q.drops now)).head?.toList.length
        totalDiscarded := q.totalDiscarded + (q.items.takeWhile (q.drops now)).length } := by
  unfold gotByGet
  fun_induction get q now with
  | case1 q hround =>
    rw [getRound_eq_none] at hround
    simp [got, hround]
  | case2 q item q' hround =>
    obtain ⟨first, ⟨-, hnone, -⟩ | ⟨hsome, htakes⟩⟩ := getRound_takes hround
    · cases hnone
    · obtain rfl := Option.some.inj hsome
      have hkept : q.drops now item = false := getRound_keeps hround
      simp [got, htakes.items, hkept, htakes.totalEnqueued, htakes.totalDequeued,
        htakes.totalDiscarded]
  | case3 q q' hround ih =>
    obtain ⟨first, ⟨hdropped, -, htakes⟩ | ⟨hsome, -⟩⟩ := getRound_takes hround
    · have hsame : q'.drops now = q.drops now := by
        unfold drops
        rw [htakes.discardExpired]
      have hfirst : q.drops now first = true := hdropped
      rw [ih, hsame]
      simp only [htakes.items, List.dropWhile_cons_of_pos hfirst, List.takeWhile_cons_of_pos hfirst,
        htakes.totalEnqueued, htakes.totalDequeued, htakes.totalDiscarded, List.length_cons]
      congr 1 <;> omega
    · cases hsome

/-- `get_nowait` returns the first item. -/
theorem gotNowait_eq (q : PriorityMessageQueue) :
    q.gotNowait =
      { envelope := q.items.head?.map QueueItem.envelope
        items := q.items.tail
        totalEnqueued := q.totalEnqueued
        totalDequeued := q.totalDequeued + q.items.head?.toList.length
        totalDiscarded := q.totalDiscarded } := by
  unfold gotNowait
  rcases hget : q.getNowait with _ | ⟨item, q'⟩
  · have hempty : q.items = [] := by
      unfold getNowait at hget
      exact MinQueue.get_eq_none.mp (Option.map_eq_none_iff.mp hget)
    simp [got, hempty]
  · have htakes := getNowait_takes hget
    simp [got, htakes.items, htakes.totalEnqueued, htakes.totalDequeued, htakes.totalDiscarded]

/-- What `get` returns, it does not drop. -/
theorem drops_of_gotByGet {q : PriorityMessageQueue} {now : ℚ} {envelope : MessageEnvelope}
    (h : envelope ∈ (q.gotByGet now).envelope) :
    (q.discardExpired && envelope.isExpired now) = false := by
  rw [gotByGet_eq] at h
  obtain ⟨item, hitem, rfl⟩ := Option.map_eq_some_iff.mp (Option.mem_def.mp h)
  have hkept := List.head?_dropWhile_not (q.drops now) q.items
  rw [hitem] at hkept
  simpa [drops] using hkept

/-- `get_nowait` agrees with `get` exactly when the first item, if there is one, is not one that
`get` drops. -/
theorem nowaitAgrees_iff (q : PriorityMessageQueue) (now : ℚ) :
    q.NowaitAgrees now ↔ ∀ item ∈ q.items.head?, q.drops now item = false := by
  constructor
  · intro h item hitem
    have hdiscarded := congrArg Got.totalDiscarded h.same
    rw [gotNowait_eq, gotByGet_eq] at hdiscarded
    obtain ⟨rest, hitems⟩ := List.head?_eq_some_iff.mp hitem
    by_contra hdrops
    rw [hitems, List.takeWhile_cons_of_pos (by simpa using hdrops), List.length_cons] at hdiscarded
    dsimp only at hdiscarded
    omega
  · intro h
    have hdrop : q.items.dropWhile (q.drops now) = q.items := by
      rcases hitems : q.items with _ | ⟨item, rest⟩
      · rfl
      · have hkept := h item (by rw [hitems]; rfl)
        exact List.dropWhile_cons_of_neg (by simp [hkept])
    have htake : q.items.takeWhile (q.drops now) = [] := by
      have happend := List.takeWhile_append_dropWhile (p := q.drops now) (l := q.items)
      rw [hdrop] at happend
      exact List.append_left_eq_self.mp happend
    have hsame : q.gotNowait = q.gotByGet now := by
      rw [gotNowait_eq, gotByGet_eq, hdrop, htake]
      rfl
    refine ⟨hsame, fun hdiscard envelope henvelope => ?_, fun hdiscard envelope henvelope => ?_⟩
    · simpa [hdiscard] using drops_of_gotByGet henvelope
    · rw [hsame] at henvelope
      simpa [hdiscard] using drops_of_gotByGet henvelope

/-- A message that lives for one second. -/
def shortLived : MessageEnvelope :=
  { sender := "agent-a", receiver := "agent-b", messageId := "m0", createdAt := 0,
    ttlSeconds := some 1 }

/-- A queue that drops expired messages, after the put of one. -/
def oneMessage : PriorityMessageQueue := ((init 0 true).putNowait shortLived 0).2

/-- Two seconds later `get` drops the message and waits, and `get_nowait` returns it. -/
theorem oneMessage_disagrees :
    (oneMessage.gotByGet 2).envelope = none ∧ oneMessage.gotNowait.envelope = some shortLived ∧
      ¬ oneMessage.NowaitAgrees 2 := by
  have hnowait : oneMessage.gotNowait.envelope = some shortLived := by decide +kernel
  refine ⟨?_, hnowait, fun h => ?_⟩
  · rw [gotByGet_eq]
    decide +kernel
  · have hlive := h.nowaitLive (by decide +kernel) shortLived hnowait
    exact absurd hlive (by decide +kernel)

end PriorityMessageQueue

end MeshRouter.Broker
