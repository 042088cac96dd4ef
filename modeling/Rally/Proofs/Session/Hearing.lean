import Rally.Hall
import Rally.Proofs.Feed
import Rally.Proofs.Match.Ending

/-! What a player hears of a match, however slow the connection is: all that is said, in order, but
for what it is told to have missed, and always the end. -/
namespace Rally

/-- The message of the match in a frame. -/
def Frame.notice? : Frame → Option Notice
  | .notice n => some n
  | _ => none

/-- Something that happens to a connection, or to the feed that it reads. -/
inductive Beat where
  /-- The match says something. -/
  | say (n : Notice)
  /-- The writer reads the feed once. -/
  | turn
  /-- The player is told something about its own messages. -/
  | reply (r : Reply)
  /-- A ping of the connection is answered. -/
  | pong
  /-- The connection ends. -/
  | hangUp
deriving DecidableEq

def Beat.said? : Beat → Option Notice
  | .say n => some n
  | _ => none

/-- What the match says, beat by beat. -/
def said (beats : List Beat) : List Notice := beats.filterMap Beat.said?

@[simp] theorem said_cons (b : Beat) (beats : List Beat) :
    said (b :: beats) = b.said?.toList ++ said beats := by
  cases b <;> rfl

@[simp] theorem said_append (early late : List Beat) :
    said (early ++ late) = said early ++ said late :=
  List.filterMap_append

theorem said_map_say (ns : List Notice) : said (ns.map .say) = ns := by
  induction ns with
  | nil => rfl
  | cons n ns ih => exact congrArg (n :: ·) ih

theorem said_turns (k : Nat) : said (List.replicate k .turn) = [] :=
  List.filterMap_eq_nil_iff.mpr fun _ hb => List.eq_of_mem_replicate hb ▸ rfl

/-- A connection, and the feed that it reads. -/
structure Line where
  feed : Feed Notice
  session : Session

namespace Line

/-- A connection that has just been made, to a feed in which something has been said before. -/
def joined (before : List Notice) (room : Nat) (side : Side) (socket : Nat) : Line :=
  let feed := (Feed.withCapacity Hall.feedCapacity).sendAll before
  ⟨feed, room, side, socket, ⟨feed.sent, false⟩, true, []⟩

/-- What the writer sends, and how it goes on. -/
def wrote (l : Line) (writer : Writer) (frames : List Frame) : Line :=
  { l with session := { l.session with writer, frames := l.session.frames ++ frames } }

/-- The writer reads the feed once. -/
def turn (l : Line) : Line :=
  let (writer, frames) := l.session.writer.turn l.feed
  l.wrote writer frames

def after (l : Line) : Beat → Line
  | .say n => { l with feed := l.feed.send n }
  | .turn => l.turn
  | .reply r => { l with session := l.session.tell (.reply r) }
  | .pong => { l with session := l.session.tell .pong }
  | .hangUp => { l with session := l.session.hangUp }

def run (l : Line) (beats : List Beat) : Line := beats.foldl after l

/-- What the writer gets at a beat, if it reads the feed then. -/
def reading? (l : Line) : Beat → Option (Reading Notice)
  | .turn => if l.session.writer.done then none else some (l.feed.read l.session.writer.position).1
  | _ => none

/-- What the writer gets, beat by beat. -/
def readings (l : Line) : List Beat → List (Reading Notice)
  | [] => []
  | b :: beats => (l.reading? b).toList ++ (l.after b).readings beats

/-- The messages of the match that have been sent to the player. -/
def heard (l : Line) : List Notice := l.session.frames.filterMap Frame.notice?

end Line

/-- Nothing that has been sent tells of the end, and the connection has not been closed. -/
def Going (frames : List Frame) : Prop :=
  ∀ f ∈ frames, f ≠ .close ∧ ∀ n, f = .notice n → n.isEnd = false

/-- The end was sent as the last message of the match, and right after it the close frame. -/
def ClosedBy (n : Notice) (frames : List Frame) : Prop :=
  n.isEnd = true ∧ ∃ front, Going front ∧ frames = front ++ [.notice n, .close]

/-- Only the last of some messages may tell of the end. -/
def EndsLast (ns : List Notice) : Prop := ∀ n ∈ ns.dropLast, n.isEnd = false

variable {ns all before : List Notice} {n : Notice} {frames : List Frame} {f : Frame} {l : Line}
  {b : Beat} {beats early late : List Beat} {start : Nat} {rs : List (Reading Notice)}

theorem EndsLast.of_append (h : EndsLast (all ++ ns)) : EndsLast all := by
  intro n hn
  refine h n ?_
  cases ns with
  | nil => simpa using hn
  | cons m ns =>
    rw [List.dropLast_append_of_ne_nil (List.cons_ne_nil m ns)]
    exact List.mem_append_left _ ((List.dropLast_sublist all).subset hn)

theorem EndsLast.take (h : EndsLast all) {k : Nat} (hk : k < all.length) :
    ∀ n ∈ all.take k, n.isEnd = false := by
  intro n hn
  refine h n ?_
  rw [List.dropLast_eq_take]
  exact List.take_subset_take_left all (by omega) hn

theorem Going.snoc (h : Going frames) (hf : f ≠ .close)
    (hn : ∀ n, f = .notice n → n.isEnd = false) :
    Going (frames ++ [f]) := by
  intro g hg
  rcases List.mem_append.mp hg with hg | hg
  · exact h g hg
  · rw [List.mem_singleton.mp hg]
    exact ⟨hf, hn⟩

/-- Two stretches of a list make one, where the second begins at the end of the first. -/
theorem drop_take_append {α : Type} (as : List α) {i j k : Nat} (hij : i ≤ j) (hjk : j ≤ k)
    (hj : j ≤ as.length) : (as.take j).drop i ++ (as.take k).drop j = (as.take k).drop i := by
  have hsplit : as.take k = as.take j ++ (as.take k).drop j := by
    conv_lhs => rw [← List.take_append_drop j (as.take k), List.take_take, Nat.min_eq_left hjk]
  have hi : i ≤ (as.take j).length := by
    rw [List.length_take]
    omega
  conv_rhs => rw [hsplit, List.drop_append_of_le_length hi]

/-- All that has been said, and what the writer has got of it since `start`. -/
structure Line.Hears (all : List Notice) (start : Nat) (rs : List (Reading Notice)) (l : Line) :
    Prop where
  carries : l.feed.Carries all
  capacity : l.feed.capacity = Hall.feedCapacity
  start_le : start ≤ l.session.writer.position
  position_le : l.session.writer.position ≤ all.length
  accounts : Feed.Accounts (·.isEnd = false) rs ((all.take l.session.writer.position).drop start)
  heard : l.heard = Feed.items rs
  going : l.session.writer.done = false → Going l.session.frames
  done : l.session.writer.done = true → l.session.listening = false ∧ Going l.session.frames ∨
    ∃ n, ClosedBy n l.session.frames ∧ (all.take l.session.writer.position).getLast? = some n

namespace Line

theorem hears_say (h : l.Hears all start rs) (n : Notice) :
    Hears (all ++ [n]) start rs (l.after (.say n)) := by
  have htake : (all ++ [n]).take l.session.writer.position = all.take l.session.writer.position :=
    List.take_append_of_le_length h.position_le
  refine ⟨h.carries.send n, by simpa [after] using h.capacity, h.start_le, ?_, ?_, h.heard,
    h.going, ?_⟩
  · exact h.position_le.trans (by simp)
  · change Feed.Accounts _ rs (((all ++ [n]).take l.session.writer.position).drop start)
    rw [htake]
    exact h.accounts
  · change _ → _ ∨ ∃ m, _ ∧ ((all ++ [n]).take l.session.writer.position).getLast? = some m
    rw [htake]
    exact h.done

theorem hears_tell (h : l.Hears all start rs) (hf : f ≠ .close) (hn : f.notice? = none) :
    Hears all start rs { l with session := l.session.tell f } := by
  have hnotice (n : Notice) (he : f = .notice n) : n.isEnd = false := by
    rw [he] at hn
    cases hn
  cases hd : l.session.writer.done with
  | true =>
    have hsame : l.session.tell f = l.session := if_pos hd
    rw [hsame]
    exact h
  | false =>
    have hadd : l.session.tell f = { l.session with frames := l.session.frames ++ [f] } :=
      if_neg (by simp [hd])
    rw [hadd]
    refine ⟨h.carries, h.capacity, h.start_le, h.position_le, h.accounts, ?_, ?_, ?_⟩
    · have hheard := h.heard
      unfold Line.heard at hheard ⊢
      rw [List.filterMap_append, hheard]
      simp [hn]
    · exact fun _ => (h.going hd).snoc hf hnotice
    · intro hdone
      rw [hd] at hdone
      cases hdone

theorem hears_hangUp (h : l.Hears all start rs) : Hears all start rs (l.after .hangUp) := by
  refine ⟨h.carries, h.capacity, h.start_le, h.position_le, h.accounts, h.heard, nofun, fun _ => ?_⟩
  cases hd : l.session.writer.done with
  | false => exact .inl ⟨rfl, h.going hd⟩
  | true => exact (h.done hd).imp (fun hgone => ⟨rfl, hgone.2⟩) id

/-! Reading the feed. -/

theorem turn_of_done (hd : l.session.writer.done = true) : l.turn = l := by
  simp [turn, Writer.turn, hd, wrote]

theorem turn_of_lagged {k position : Nat} (hd : l.session.writer.done = false)
    (hr : l.feed.read l.session.writer.position = (.lagged k, position)) :
    l.turn = l.wrote ⟨position, false⟩ [] := by
  simp [turn, Writer.turn, hd, hr]

theorem turn_of_item {position : Nat} (hd : l.session.writer.done = false)
    (hr : l.feed.read l.session.writer.position = (.item n, position)) :
    l.turn =
      l.wrote ⟨position, n.isEnd⟩ (if n.isEnd then [.notice n, .close] else [.notice n]) := by
  cases hn : n.isEnd <;> simp [turn, Writer.turn, hd, hr, hn]

theorem turn_of_empty {position : Nat} (hd : l.session.writer.done = false)
    (hr : l.feed.read l.session.writer.position = (.empty, position)) : l.turn = l := by
  simp [turn, Writer.turn, hd, hr, wrote]

/-- An item that is read is sent, and the end is followed by the close frame. -/
theorem hears_item (h : l.Hears all start rs) (hd : l.session.writer.done = false)
    (hn : all[l.session.writer.position]? = some n) :
    Hears all start (rs ++ [.item n]) (l.wrote ⟨l.session.writer.position + 1, n.isEnd⟩
      (if n.isEnd then [.notice n, .close] else [.notice n])) := by
  have hlt : l.session.writer.position < all.length := (List.getElem?_eq_some_iff.mp hn).1
  have htake : all.take (l.session.writer.position + 1) =
      all.take l.session.writer.position ++ [n] := by
    rw [List.take_add_one, hn]
    rfl
  refine ⟨h.carries, h.capacity, h.start_le.trans (Nat.le_succ _), hlt, ?_, ?_, ?_, ?_⟩
  · change Feed.Accounts _ _ ((all.take (l.session.writer.position + 1)).drop start)
    rw [htake, List.drop_append_of_le_length (by
      rw [List.length_take_of_le h.position_le]
      exact h.start_le)]
    exact h.accounts.item n
  · have hheard := h.heard
    unfold Line.heard at hheard ⊢
    cases he : n.isEnd <;> simp [wrote, hheard, Frame.notice?, Reading.item?]
  · intro he
    change n.isEnd = false at he
    change Going (l.session.frames ++ _)
    rw [if_neg (by simp [he])]
    refine (h.going hd).snoc (by simp) fun m hm => ?_
    cases hm
    exact he
  · intro he
    change n.isEnd = true at he
    refine .inr ⟨n, ⟨he, l.session.frames, h.going hd, ?_⟩, ?_⟩
    · change l.session.frames ++ _ = _
      rw [if_pos he]
    · change (all.take (l.session.writer.position + 1)).getLast? = some n
      rw [htake, List.getLast?_concat]

/-- Where the writer is told of a lag, the end is not among what it has missed: the feed keeps at
least its last item. -/
theorem hears_lagged (h : l.Hears all start rs) (he : EndsLast all)
    (hd : l.session.writer.done = false) (hlag : l.session.writer.position < l.feed.oldest) :
    Hears all start (rs ++ [.lagged (l.feed.oldest - l.session.writer.position)])
      (l.wrote ⟨l.feed.oldest, false⟩ []) := by
  have hroom : 1 ≤ l.feed.capacity := h.capacity ▸ (by decide : 1 ≤ Hall.feedCapacity)
  have holdest := h.carries.oldest
  have hlt : l.feed.oldest < all.length := by omega
  have hgap : ((all.take l.feed.oldest).drop l.session.writer.position).length =
      l.feed.oldest - l.session.writer.position := by
    rw [List.length_drop, List.length_take_of_le (Nat.le_of_lt hlt)]
  have hframes : l.session.frames ++ [] = l.session.frames := List.append_nil _
  refine ⟨h.carries, h.capacity, h.start_le.trans (Nat.le_of_lt hlag), Nat.le_of_lt hlt, ?_, ?_, ?_,
    nofun⟩
  · change Feed.Accounts _ _ ((all.take l.feed.oldest).drop start)
    rw [← drop_take_append all h.start_le (Nat.le_of_lt hlag) h.position_le, ← hgap]
    exact h.accounts.lagged _ fun n hn => he.take hlt n (List.mem_of_mem_drop hn)
  · simpa [Line.heard, wrote, Reading.item?] using h.heard
  · intro _
    change Going (l.session.frames ++ [])
    rw [hframes]
    exact h.going hd

theorem hears_turn (h : l.Hears all start rs) (he : EndsLast all) :
    Hears all start (rs ++ (l.reading? .turn).toList) (l.after .turn) := by
  change Hears all start (rs ++ (if l.session.writer.done then none
    else some (l.feed.read l.session.writer.position).1).toList) l.turn
  cases hd : l.session.writer.done with
  | true =>
    rw [turn_of_done hd]
    simpa using h
  | false =>
    obtain ⟨hlag, hr⟩ | ⟨n, -, hn, hr⟩ | ⟨-, hr⟩ := h.carries.read h.position_le
    · rw [turn_of_lagged hd hr, hr]
      exact hears_lagged h he hd hlag
    · rw [turn_of_item hd hr, hr]
      exact hears_item h hd hn
    · rw [turn_of_empty hd hr, hr]
      exact { h with accounts := h.accounts.empty, heard := by simpa [Reading.item?] using h.heard }

theorem hears_after (h : l.Hears all start rs) (he : EndsLast (all ++ b.said?.toList)) :
    Hears (all ++ b.said?.toList) start (rs ++ (l.reading? b).toList) (l.after b) := by
  cases b with
  | say n => simpa [reading?, Beat.said?] using hears_say h n
  | turn => simpa [Beat.said?] using hears_turn h he.of_append
  | reply r => simpa [reading?, Beat.said?, after] using hears_tell (f := .reply r) h nofun rfl
  | pong => simpa [reading?, Beat.said?, after] using hears_tell (f := .pong) h nofun rfl
  | hangUp => simpa [reading?, Beat.said?] using hears_hangUp h

theorem hears_run (h : l.Hears all start rs) (he : EndsLast (all ++ said beats)) :
    Hears (all ++ said beats) start (rs ++ l.readings beats) (l.run beats) := by
  induction beats generalizing l all rs with
  | nil => simpa [said, readings, run] using h
  | cons b beats ih =>
    rw [said_cons, ← List.append_assoc] at he ⊢
    have hb := ih (hears_after h he.of_append) he
    rw [List.append_assoc rs] at hb
    exact hb

/-- The feed of a hall has just the room that the hall asks for. -/
theorem feed_capacity : (Feed.withCapacity Hall.feedCapacity : Feed Notice).capacity =
    Hall.feedCapacity := by
  decide +kernel

theorem hears_joined (before : List Notice) (room : Nat) (side : Side) (socket : Nat) :
    Hears before before.length [] (joined before room side socket) := by
  have hcarries : ((Feed.withCapacity Hall.feedCapacity).sendAll before).Carries before := by
    simpa using (Feed.Carries.withCapacity Hall.feedCapacity).sendAll before
  refine ⟨hcarries, ?_, hcarries.sent.ge, hcarries.sent.le, ?_, rfl, fun _ => ?_, nofun⟩
  · exact (Feed.capacity_sendAll _ before).trans feed_capacity
  · change Feed.Accounts _ [] ((before.take (Feed.sendAll _ before).sent).drop before.length)
    rw [hcarries.sent, List.take_length, List.drop_length]
    exact .nil
  · exact fun f hf => (List.not_mem_nil hf).elim

/-! Nothing but a hang-up stops the writer before the end, and it gets there in a bounded number of
turns. -/

theorem listening_run (l : Line) (hb : .hangUp ∉ beats) :
    (l.run beats).session.listening = l.session.listening := by
  induction beats generalizing l with
  | nil => rfl
  | cons b beats ih =>
    rw [List.mem_cons, not_or] at hb
    refine (ih (l.after b) hb.2).trans ?_
    cases b with
    | say | turn => rfl
    | reply | pong =>
      simp only [after, Session.tell]
      split <;> rfl
    | hangUp => exact absurd rfl hb.1

/-- How many turns it takes at most to get to the end of the feed. -/
def behind (l : Line) : Nat :=
  if l.session.writer.done then 0
  else if l.session.writer.position < l.feed.oldest then l.feed.kept.length + 1
  else l.feed.sent - l.session.writer.position

theorem behind_le (h : l.Hears all start rs) : l.behind ≤ Hall.feedCapacity + 1 := by
  rw [← h.capacity]
  have hkept := congrArg List.length h.carries.kept
  have hsent := h.carries.sent
  have holdest := h.carries.oldest
  rw [List.length_drop] at hkept
  unfold behind
  split
  · omega
  · split <;> omega

/-- As long as the writer goes on and the end has been said, there is something left to read. -/
theorem Hears.more (h : l.Hears all start rs) (hend : ∃ n ∈ all.drop start, n.isEnd = true)
    (hd : l.session.writer.done = false) : l.session.writer.position < all.length := by
  refine Nat.lt_of_le_of_ne h.position_le fun hall => ?_
  obtain ⟨n, hn, he⟩ := hend
  have haccounts := h.accounts
  rw [hall, List.take_length] at haccounts
  rcases haccounts.mem_or n hn with hgot | hmay
  · rw [← h.heard] at hgot
    obtain ⟨f, hf, hfn⟩ := List.mem_filterMap.mp hgot
    cases f with
    | notice m =>
      cases hfn
      rw [(h.going hd _ hf).2 n rfl] at he
      cases he
    | reply | pong | close => cases hfn
  · rw [hmay] at he
    cases he

theorem behind_pos (h : l.Hears all start rs) (hend : ∃ n ∈ all.drop start, n.isEnd = true)
    (hd : l.session.writer.done = false) : 0 < l.behind := by
  have hmore := h.more hend hd
  have hsent := h.carries.sent
  rw [behind, if_neg (by simp [hd])]
  split <;> omega

theorem behind_turn (h : l.Hears all start rs) (hend : ∃ n ∈ all.drop start, n.isEnd = true) :
    l.turn.behind ≤ l.behind - 1 := by
  cases hd : l.session.writer.done with
  | true => simp [turn_of_done hd, behind, hd]
  | false =>
    have hsent := h.carries.sent
    have hmore := h.more hend hd
    obtain ⟨hlag, hr⟩ | ⟨n, hge, -, hr⟩ | ⟨hall, -⟩ := h.carries.read h.position_le
    · have hoff : l.behind = l.feed.kept.length + 1 := by simp [behind, hd, hlag]
      have hon : (l.wrote ⟨l.feed.oldest, false⟩ []).behind = l.feed.sent - l.feed.oldest := by
        simp [behind, wrote]
      rw [turn_of_lagged hd hr, hoff, hon, Feed.oldest]
      omega
    · rw [turn_of_item hd hr, behind, behind]
      simp only [wrote, hd, Nat.not_lt.mpr hge, Nat.not_lt.mpr (Nat.le_succ_of_le hge),
        Bool.false_eq_true, if_false]
      split <;> omega
    · omega

@[simp] theorem behind_tell (l : Line) (f : Frame) :
    behind { l with session := l.session.tell f } = l.behind := by
  unfold Session.tell
  split <;> rfl

/-- Once the end has been said, the writer is done after as many turns as it is behind. -/
theorem done_run (h : l.Hears all start rs) (he : EndsLast all)
    (hend : ∃ n ∈ all.drop start, n.isEnd = true) (hlate : said late = [])
    (hturns : l.behind ≤ late.count .turn) : (l.run late).session.writer.done = true := by
  induction late generalizing l rs with
  | nil =>
    by_contra hd
    have hpos := behind_pos h hend (Bool.eq_false_iff.mpr hd)
    exact absurd hturns (Nat.not_le.mpr hpos)
  | cons b late ih =>
    have hb : b.said? = none ∧ said late = [] := by simpa using hlate
    have hnext : Hears all start (rs ++ (l.reading? b).toList) (l.after b) := by
      simpa [hb.1] using hears_after (b := b) h (by simpa [hb.1] using he)
    refine ih hnext hb.2 ?_
    cases b with
    | say => simp [Beat.said?] at hb
    | turn =>
      have hless := behind_turn h hend
      rw [List.count_cons_self] at hturns
      change l.turn.behind ≤ _
      omega
    | reply | pong =>
      rw [List.count_cons_of_ne (by simp)] at hturns
      simpa [after] using hturns
    | hangUp => simp [after, behind, Session.hangUp, Writer.stop]

end Line

/-! What a match says. -/

theorem isEnding_eq_isEnd (n : Notice) : n.isEnding = n.isEnd := by
  cases n <;> rfl

theorem Play.SingleEnding.endsLast {p : Play} (h : p.SingleEnding) : EndsLast p.notices := by
  have hcount := h.notices
  unfold Play.endingNotices at hcount
  intro n hn
  rw [← isEnding_eq_isEnd]
  by_cases hp : p.game.phase = .ended
  · obtain ⟨winner, reason, hlast, -⟩ := h.last hp
    obtain ⟨front, hfront⟩ := List.getLast?_eq_some_iff.mp hlast
    rw [hfront, List.dropLast_concat] at hn
    rw [if_pos hp, hfront, List.countP_append] at hcount
    have hnone : front.countP Notice.isEnding = 0 := by
      simpa [Notice.isEnding] using hcount
    simpa using List.countP_eq_zero.mp hnone n hn
  · rw [if_neg hp] at hcount
    simpa using List.countP_eq_zero.mp hcount n ((List.dropLast_sublist _).subset hn)

theorem endsLast_of_said {p : Play} (h : p.SingleEnding)
    (hsaid : before ++ said beats <+: p.notices) : EndsLast (before ++ said beats) := by
  obtain ⟨rest, hrest⟩ := hsaid
  have hlast := h.endsLast
  rw [← hrest] at hlast
  exact hlast.of_append

namespace Line

/-! What the hall does when a match speaks: it passes on what was said, and reads until nothing is
left. -/

theorem run_say (l : Line) (ns : List Notice) :
    l.run (ns.map .say) = { l with feed := l.feed.sendAll ns } := by
  induction ns generalizing l with
  | nil => rfl
  | cons n ns ih => exact ih (l.after (.say n))

theorem run_turn (l : Line) (k : Nat) : l.run (List.replicate k .turn) =
    l.wrote (l.session.writer.turns l.feed k).1 (l.session.writer.turns l.feed k).2 := by
  induction k generalizing l with
  | zero => simp [run, Writer.turns, wrote]
  | succ k ih =>
    refine (ih l.turn).trans ?_
    simp [turn, Writer.turns, wrote]

/-- A delivery of the hall is one of the ways in which speech and reads may interleave. -/
theorem run_delivery (l : Line) (ns : List Notice) :
    l.run (ns.map .say ++ List.replicate ((l.feed.sendAll ns).kept.length + 2) .turn) =
      ⟨l.feed.sendAll ns, l.session.pump (l.feed.sendAll ns)⟩ := by
  rw [run, List.foldl_append]
  change run (run l _) _ = _
  rw [run_say, run_turn]
  rfl

/-- A writer that was done by the end, and not because of a hang-up, has got all there was. -/
theorem Hears.closed (h : l.Hears all start rs) (he : EndsLast all)
    (hd : l.session.writer.done = true) (hlisten : l.session.listening = true) :
    ∃ n, all.getLast? = some n ∧ ClosedBy n l.session.frames ∧
      Feed.Accounts (·.isEnd = false) rs (all.drop start) := by
  rcases h.done hd with ⟨hgone, -⟩ | ⟨n, hclosed, hlast⟩
  · rw [hlisten] at hgone
    cases hgone
  · have hall : l.session.writer.position = all.length := by
      refine Nat.le_antisymm h.position_le (Nat.le_of_not_lt fun hlt => ?_)
      have hnot := he.take hlt n (List.mem_of_getLast? hlast)
      rw [hclosed.1] at hnot
      cases hnot
    have haccounts := h.accounts
    rw [hall, List.take_length] at hlast haccounts
    exact ⟨n, hlast, hclosed, haccounts⟩

/-- What a new connection has got, as long as the match says what it says. -/
theorem hears_said {p : Play} (h : p.SingleEnding) (room : Nat) (side : Side) (socket : Nat)
    (hsaid : before ++ said beats <+: p.notices) :
    Hears (before ++ said beats) before.length ((joined before room side socket).readings beats)
      ((joined before room side socket).run beats) := by
  have hrun := hears_run (hears_joined before room side socket) (endsLast_of_said h hsaid)
  rwa [List.nil_append] at hrun

/-- The end is said after the connection was made. -/
theorem exists_isEnd {p : Play} (h : p.SingleEnding) (hp : p.game.phase = .ended)
    (hbefore : ∀ n ∈ before, n.isEnd = false) (hall : before ++ ns = p.notices) :
    ∃ n ∈ p.notices.drop before.length, n.isEnd = true := by
  obtain ⟨winner, reason, hlast, -⟩ := h.last hp
  have hmem := List.mem_of_getLast? hlast
  rw [← hall] at hmem
  rw [← hall, List.drop_left]
  refine ⟨_, (List.mem_append.mp hmem).resolve_left fun hn => ?_, rfl⟩
  exact Bool.noConfusion (hbefore _ hn)

/-- Once all has been said, an open connection gets to the end in a bounded number of turns. -/
theorem closed_in_time {p : Play} (h : p.SingleEnding) (hp : p.game.phase = .ended) (room : Nat)
    (side : Side) (socket : Nat) (hbefore : ∀ n ∈ before, n.isEnd = false)
    (hall : before ++ said early = p.notices) (hlate : said late = [])
    (hopen : .hangUp ∉ early ++ late) (hturns : Hall.feedCapacity + 1 ≤ late.count .turn) :
    let l := joined before room side socket
    ∃ n, p.notices.getLast? = some n ∧ ClosedBy n (l.run (early ++ late)).session.frames ∧
      Feed.Accounts (·.isEnd = false) (l.readings (early ++ late)) (said early) := by
  intro l
  have hsaid : before ++ said (early ++ late) = p.notices := by
    rw [said_append, hlate, List.append_nil, hall]
  have hearly := hears_said h room side socket ⟨[], (List.append_nil _).trans hall⟩
  have hrun := hears_said h room side socket ⟨[], (List.append_nil _).trans hsaid⟩
  rw [hall] at hearly
  rw [hsaid] at hrun
  have hdone : (l.run (early ++ late)).session.writer.done = true := by
    rw [run, List.foldl_append]
    exact done_run hearly h.endsLast (exists_isEnd h hp hbefore hall) hlate
      ((behind_le hearly).trans hturns)
  have hclosed := hrun.closed h.endsLast hdone (listening_run l hopen)
  rw [← hall, List.drop_left] at hclosed
  rw [← hall]
  exact hclosed

/-- However the reads of a connection interleave with what its match says, and however far it falls
behind, it hears the messages since its arrival in their order and each at most once. It misses just
what it is told of as a lag, and never the end. The end is followed by the close frame alone. Unless
the connection ends before, it gets there in as many turns as the feed has room, and one. -/
theorem hears_the_end {fixture : Fixture} {rules : Rules} {seed : UInt64} {now : Nat}
    {ms : List Move} {p : Play} (h : (Play.start fixture rules seed now).run ms = .ok p)
    (room : Nat) (side : Side) (socket : Nat) (hbefore : ∀ n ∈ before, n.isEnd = false)
    (hsaid : before ++ said beats <+: p.notices) :
    let l := joined before room side socket
    let rs := l.readings beats
    (l.run beats).heard = Feed.items rs ∧
    (∃ k, Feed.Accounts (·.isEnd = false) rs ((said beats).take k)) ∧
    (l.run beats).heard.Sublist (said beats) ∧
    (Going (l.run beats).session.frames ∨ ∃ n, ClosedBy n (l.run beats).session.frames) ∧
    ∀ early late, beats = early ++ late → p.game.phase = .ended →
      before ++ said early = p.notices → .hangUp ∉ beats →
      Hall.feedCapacity + 1 ≤ late.count .turn →
      ∃ n, p.notices.getLast? = some n ∧ ClosedBy n (l.run beats).session.frames ∧
        Feed.Accounts (·.isEnd = false) rs (said beats) := by
  intro l rs
  have hends := (Play.settled_run h).toSingleEnding
  have hrun := hears_said hends room side socket hsaid
  have haccounts := hrun.accounts
  rw [List.drop_take, List.drop_left] at haccounts
  have hsublist : (l.run beats).heard.Sublist (said beats) := by
    rw [hrun.heard]
    exact haccounts.sublist.trans (List.take_sublist _ _)
  refine ⟨hrun.heard, ⟨_, haccounts⟩, hsublist, ?_, ?_⟩
  · cases hd : (l.run beats).session.writer.done with
    | false => exact .inl (hrun.going hd)
    | true => exact (hrun.done hd).imp And.right fun ⟨n, hn⟩ => ⟨n, hn.1⟩
  · rintro early late rfl hp hall hopen hturns
    -- the end was the last word, so that nothing is said while the writer catches up
    have hlate : said late = [] := by
      rw [said_append, ← List.append_assoc, hall] at hsaid
      have hlength := hsaid.length_le
      rw [List.length_append] at hlength
      exact List.eq_nil_of_length_eq_zero (by omega)
    rw [said_append, hlate, List.append_nil]
    exact closed_in_time hends hp room side socket hbefore hall hlate hopen hturns

/-- A client that does not read until the match is over, and has missed more than the feed keeps. A
single delivery of the hall then takes it to the end. -/
theorem hears_the_end_late :
    ∃ p, (Play.start Play.duel {} 7 0).run
        (List.replicate 300 (.join .left 0) ++ [.surrender .left]) = .ok p ∧
      p.game.phase = .ended ∧ Hall.feedCapacity < p.notices.length ∧
      let l := joined [] 0 .left 0
      ∃ n, p.notices.getLast? = some n ∧
        ClosedBy n (l.session.pump (l.feed.sendAll p.notices)).frames := by
  obtain ⟨p, hp, he, hlong⟩ := Play.exists_run (Play.start Play.duel {} 7 0)
    (List.replicate 300 (.join .left 0) ++ [.surrender .left])
    (fun p => p.game.phase = .ended ∧ Hall.feedCapacity < p.notices.length) (by decide +kernel)
  refine ⟨p, hp, he, hlong, ?_⟩
  intro l
  have hkept : Hall.feedCapacity ≤ (l.feed.sendAll p.notices).kept.length := by
    have hcarries := ((hears_joined [] 0 .left 0).carries.sendAll p.notices).kept
    rw [Feed.capacity_sendAll, (hears_joined [] 0 .left 0).capacity, List.nil_append] at hcarries
    rw [hcarries, List.length_drop]
    omega
  have hsaid : said (p.notices.map .say ++
      List.replicate ((l.feed.sendAll p.notices).kept.length + 2) .turn) = p.notices := by
    rw [said_append, said_map_say, said_turns, List.append_nil]
  have hopen : Beat.hangUp ∉ p.notices.map .say ++
      List.replicate ((l.feed.sendAll p.notices).kept.length + 2) .turn := by
    intro hb
    rcases List.mem_append.mp hb with hb | hb
    · obtain ⟨_, -, hb⟩ := List.mem_map.mp hb
      cases hb
    · cases List.eq_of_mem_replicate hb
  obtain ⟨-, -, -, -, h⟩ := hears_the_end hp 0 .left 0 (fun _ hn => (List.not_mem_nil hn).elim)
    ⟨[], (List.append_nil _).trans hsaid⟩
  obtain ⟨n, hlast, hclosed, -⟩ := h _ _ rfl he (said_map_say _) hopen (by
    rw [List.count_replicate_self]
    omega)
  have hrun := run_delivery l p.notices
  rw [hrun] at hclosed
  exact ⟨n, hlast, hclosed⟩

end Line
end Rally
