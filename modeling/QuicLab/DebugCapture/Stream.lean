import QuicLab.DebugCapture.Capture
import QuicLab.System

/-!
# The live view of a capture

`captureStream` sends a capture to its viewer while it is being recorded. It
polls the session: the keys first, and those that are new go out in a block of
their own; then the blocks from the last index on, as far as they are old enough.
The reads are separate, and the session records on in between.

* `Viewer`: where the loop stands;
* `Stream.act`: the steps of the loop and of the session;
* `Stream.Ok`: what the loop has sent and what it holds, against what is recorded;
* `sent_recorded`: the blocks sent are the first blocks recorded, in order; they
  start with the section header; and when the stream is closed as done, they are
  all there are, and every key that was there when the keys were last read has
  been sent.
-/

namespace QuicLab.DebugCapture

open Go

/-! ### Reading a session -/

namespace Session

/-- The blocks that `Blocks` returns. -/
def blocksFrom (start : ℕ) (s : Session) : List Bytes := s.blocks.drop start

/-- The loop of `LiveBlocks`, which leaves out the blocks younger than two
    seconds at the end; `clock n` is the time it reads when it looks at the block `n`. -/
def liveEnd (clock : ℕ → Time) (start : ℕ) (s : Session) : ℕ → ℕ
  | 0 => 0
  | n + 1 =>
    if start < n + 1 ∧ clock n - s.times.getD n 0 < 2 * second then liveEnd clock start s n
    else n + 1

/-- `LiveBlocks`. -/
def liveBlocks (clock : ℕ → Time) (start : ℕ) (s : Session) : List Bytes × Bool :=
  let n :=
    if s.state = .running then s.liveEnd clock start s.blocks.length else s.blocks.length
  ((s.blocks.take n).drop start, s.state ≠ .running ∧ n = s.blocks.length)

/-- `SecretBlockSince`. -/
def secretBlockSince (n : ℕ) (s : Session) : Bytes :=
  secrets (s.keyLines.drop (min n s.keyLines.length))

theorem liveBlocks_prefix (clock : ℕ → Time) (start : ℕ) (s : Session) :
    (s.liveBlocks clock start).1 <+: s.blocks.drop start := by
  unfold liveBlocks
  exact (List.take_prefix _ s.blocks).drop start

/-- When it is done, `LiveBlocks` returns all that is left, of a session that has ended. -/
theorem liveBlocks_done {clock : ℕ → Time} {start : ℕ} {s : Session}
    (h : (s.liveBlocks clock start).2 = true) :
    s.state ≠ .running ∧ (s.liveBlocks clock start).1 = s.blocks.drop start := by
  unfold liveBlocks at h ⊢
  simp only [decide_eq_true_eq] at h ⊢
  exact ⟨h.1, by rw [h.2, List.take_length]⟩

/-- What is recorded stays, and nothing is added after the end. -/
theorem blocks_prefix_after (s : Session) (e : Event) : s.blocks <+: (s.after e).blocks := by
  cases e with
  | emit now b =>
    simp only [after, emit]
    split_ifs
    · exact List.prefix_rfl
    · exact List.prefix_rfl
    · exact List.prefix_append _ _
  | write p =>
    simp only [after, write]
    split_ifs <;> exact List.prefix_rfl
  | stop reason =>
    simp only [after, stop]
    split_ifs <;> exact List.prefix_rfl

theorem keyLines_prefix_after (s : Session) (e : Event) :
    s.keyLines <+: (s.after e).keyLines := by
  cases e with
  | emit now b =>
    simp only [after, emit]
    split_ifs <;> exact List.prefix_rfl
  | write p =>
    simp only [after, write]
    split_ifs
    · exact List.prefix_rfl
    · exact List.prefix_append _ _
  | stop reason =>
    simp only [after, stop]
    split_ifs <;> exact List.prefix_rfl

theorem after_of_ended {s : Session} (h : s.state ≠ .running) (e : Event) : s.after e = s := by
  cases e with
  | emit now b => simp [after, emit, h]
  | write p => simp [after, write, h]
  | stop reason => simp [after, stop, h]

end Session

/-! ### The loop -/

/-- A binary message: a block of the session, or one made by `SecretBlockSince`. -/
inductive Message
  | block (b : Bytes)
  | secret (b : Bytes)

/-- The block of the session that is sent, if it is one. -/
def Message.block? : Message → Option Bytes
  | .block b => some b
  | .secret _ => none

/-- Where `captureStream` stands, once the connection is accepted. -/
inductive Viewer
  /-- The blocks are to be read for the first time. -/
  | start
  /-- The section header is to be sent. -/
  | first (b : Bytes)
  /-- The keys are to be read. -/
  | poll (index keyCount : ℕ)
  /-- There were `n` bytes of keys, more than were sent, so the new ones are to be read. -/
  | secrets (index keyCount n : ℕ)
  /-- The block with the new keys is to be sent. -/
  | sendSecrets (index n : ℕ) (b : Bytes)
  /-- The blocks are to be read. -/
  | live (index keyCount : ℕ)
  /-- The blocks are to be sent. -/
  | sendBlocks (index keyCount : ℕ) (bs : List Bytes) (done : Bool)
  /-- The loop has ended, with the normal closure or by an error. -/
  | closed (normal : Bool)

/-- A step: the session records, or the loop reads, sends or waits. Sending and
    waiting may fail. `Keys` returns `keys`. -/
inductive Act
  | record (e : Session.Event)
  | blocks
  | keys (keys : Bytes)
  | secretBlock
  | liveBlocks (clock : ℕ → Time)
  | send (ok : Bool)
  | wait (ok : Bool)

/-- A session and its viewer, and the messages sent so far. -/
structure Stream where
  session : Session
  viewer : Viewer
  sent : List Message

namespace Stream

/-- The viewer goes on. -/
def goto (v : Viewer) (s : Stream) : Stream := { s with viewer := v }

/-- A message is sent, if the connection is `ok`. -/
def send (m : Message) (ok : Bool) (v : Viewer) (s : Stream) : Stream :=
  if ok then { s with viewer := v, sent := s.sent ++ [m] } else s.goto (.closed false)

/-- The step `a`, where it can be taken. -/
def act (a : Act) (s : Stream) : Option Stream :=
  match a, s.viewer with
  | .record e, _ => some { s with session := s.session.after e }
  | .blocks, .start =>
    match s.session.blocksFrom 0 with
    | [] => some (s.goto (.closed false))
    | b :: _ => some (s.goto (.first b))
  | .send ok, .first b => some (s.send (.block b) ok (.poll 1 0))
  | .keys keys, .poll index keyCount =>
    if keys ≠ s.session.keyLines then none
    else if keyCount < keys.length then some (s.goto (.secrets index keyCount keys.length))
    else some (s.goto (.live index keyCount))
  | .secretBlock, .secrets index keyCount n =>
    some (s.goto (.sendSecrets index n (s.session.secretBlockSince keyCount)))
  | .send ok, .sendSecrets index n b => some (s.send (.secret b) ok (.live index n))
  | .liveBlocks clock, .live index keyCount =>
    some (s.goto (.sendBlocks index keyCount (s.session.liveBlocks clock index).1
      (s.session.liveBlocks clock index).2))
  | .send ok, .sendBlocks index keyCount (b :: bs) done =>
    some (s.send (.block b) ok (.sendBlocks (index + 1) keyCount bs done))
  | .wait ok, .sendBlocks index keyCount [] done =>
    if done then some (s.goto (.closed true))
    else if ok then some (s.goto (.poll index keyCount))
    else some (s.goto (.closed false))
  | _, _ => none

/-- A session that was started, and the loop over it. -/
def system : System Stream Act where
  init s := (∃ owner kind user port tcpPort now now' link,
    s.session = ((Session.fresh owner kind user port tcpPort now).emit now' (sectionHeader link)).2) ∧
    s.viewer = .start ∧ s.sent = []
  step s a s' := s.act a = some s'

/-- The blocks of the session that were sent. -/
def sentBlocks (s : Stream) : List Bytes := s.sent.filterMap Message.block?

end Stream

/-- Is it a step that reads the keys? -/
def Act.isKeys : Act → Bool
  | .keys _ => true
  | _ => false

/-- The keys when they were last read. -/
def lastKeys (as : List Act) : Bytes :=
  match latest Act.isKeys as with
  | some (.keys keys) => keys
  | _ => []

theorem lastKeys_snoc (as : List Act) (a : Act) :
    lastKeys (as ++ [a]) = match a with
      | .keys keys => keys
      | _ => lastKeys as := by
  rw [lastKeys, latest_snoc]
  cases a <;> rfl

namespace Stream

/-- The first `n` bytes of the keys were sent: each is in a message made by
    `SecretBlockSince`, at its place in the keys. -/
def Covered (n : ℕ) (s : Stream) : Prop :=
  ∀ j < n, ∃ i content, .secret (secrets content) ∈ s.sent ∧
    content <+: s.session.keyLines.drop i ∧ i ≤ j ∧ j < i + content.length

/-- The blocks sent are those before the index. -/
def Upto (index : ℕ) (s : Stream) : Prop :=
  s.sentBlocks = s.session.blocks.take index ∧ index ≤ s.session.blocks.length

/-- The same, and the header is among them. -/
def At (index : ℕ) (s : Stream) : Prop := s.Upto index ∧ 1 ≤ index

/-- What was sent and what the viewer holds, against what is recorded; there were
    `last` bytes of keys when they were last read. -/
def Ok (last : ℕ) (s : Stream) : Prop :=
  match s.viewer with
  | .start => s.sent = [] ∧ last = 0
  | .first b => s.sent = [] ∧ last = 0 ∧ s.session.blocks.head? = some b
  | .poll index keyCount => s.At index ∧ s.Covered keyCount ∧ last ≤ keyCount
  | .secrets index keyCount n =>
    s.At index ∧ s.Covered keyCount ∧ last ≤ n ∧ n ≤ s.session.keyLines.length
  | .sendSecrets index n b => s.At index ∧ last ≤ n ∧ ∃ keyCount content, b = secrets content ∧
    s.Covered keyCount ∧ content <+: s.session.keyLines.drop keyCount ∧
    n ≤ keyCount + content.length
  | .live index keyCount => s.At index ∧ s.Covered keyCount ∧ last ≤ keyCount
  | .sendBlocks index keyCount bs done => s.At index ∧ s.Covered keyCount ∧ last ≤ keyCount ∧
    bs <+: s.session.blocks.drop index ∧
    (done = true → s.session.state ≠ .running ∧ bs = s.session.blocks.drop index)
  | .closed false => s.sentBlocks <+: s.session.blocks
  | .closed true =>
    s.session.state ≠ .running ∧ s.sentBlocks = s.session.blocks ∧ s.Covered last

/-! ### The session records -/

variable {s : Stream} {last index n : ℕ}

theorem At.record (h : s.At index) (e : Session.Event) :
    At index { s with session := s.session.after e } := by
  obtain ⟨⟨hsent, hle⟩, hpos⟩ := h
  obtain ⟨new, hnew⟩ := s.session.blocks_prefix_after e
  refine ⟨⟨?_, hle.trans (by simp [← hnew])⟩, hpos⟩
  change s.sentBlocks = (s.session.after e).blocks.take index
  rw [← hnew, List.take_append_of_le_length hle]
  exact hsent

theorem Covered.record (h : s.Covered n) (e : Session.Event) :
    Covered n { s with session := s.session.after e } := by
  intro j hj
  obtain ⟨i, content, hm, hp, hij, hji⟩ := h j hj
  exact ⟨i, content, hm, hp.trans ((s.session.keyLines_prefix_after e).drop i), hij, hji⟩

theorem Ok.record (h : s.Ok last) (e : Session.Event) :
    Ok last { s with session := s.session.after e } := by
  have hblocks := s.session.blocks_prefix_after e
  have hkeys := s.session.keyLines_prefix_after e
  obtain ⟨session, viewer, sent⟩ := s
  cases viewer with
  | start => exact h
  | first b =>
    obtain ⟨hs, hl, hb⟩ := h
    obtain ⟨new, hnew⟩ := hblocks
    refine ⟨hs, hl, ?_⟩
    change (session.after e).blocks.head? = some b
    rw [← hnew, List.head?_append, hb, Option.some_or]
  | poll index keyCount =>
    obtain ⟨hat, hc, hl⟩ := h
    exact ⟨hat.record e, hc.record e, hl⟩
  | secrets index keyCount n =>
    obtain ⟨hat, hc, hl, hn⟩ := h
    exact ⟨hat.record e, hc.record e, hl, hn.trans hkeys.length_le⟩
  | sendSecrets index n b =>
    obtain ⟨hat, hl, keyCount, content, hb, hc, hp, hn⟩ := h
    exact ⟨hat.record e, hl, keyCount, content, hb, hc.record e, hp.trans (hkeys.drop _), hn⟩
  | live index keyCount =>
    obtain ⟨hat, hc, hl⟩ := h
    exact ⟨hat.record e, hc.record e, hl⟩
  | sendBlocks index keyCount bs done =>
    obtain ⟨hat, hc, hl, hp, hd⟩ := h
    refine ⟨hat.record e, hc.record e, hl, hp.trans (hblocks.drop _), fun hdone => ?_⟩
    change (session.after e).state ≠ .running ∧ bs = (session.after e).blocks.drop index
    rw [Session.after_of_ended (hd hdone).1]
    exact hd hdone
  | closed normal =>
    cases normal with
    | false => exact List.IsPrefix.trans h hblocks
    | true =>
      have hend : session.state ≠ .running := h.1
      change Ok last ⟨session.after e, .closed true, sent⟩
      rw [Session.after_of_ended hend]
      exact h

/-! ### The loop sends -/

/-- The next block goes out. -/
theorem Upto.send_block {b : Bytes} {bs : List Bytes} (h : s.Upto index)
    (hb : b :: bs <+: s.session.blocks.drop index) (v : Viewer) :
    At (index + 1) (s.send (.block b) true v) ∧ bs <+: s.session.blocks.drop (index + 1) := by
  obtain ⟨hsent, -⟩ := h
  obtain ⟨rest, hrest⟩ := hb
  have hget : s.session.blocks[index]? = some b := by
    rw [← List.head?_drop, ← hrest]
    rfl
  refine ⟨⟨⟨?_, (List.getElem?_eq_some_iff.1 hget).1⟩, by omega⟩, ?_⟩
  · change (s.sent ++ [Message.block b]).filterMap Message.block? = s.session.blocks.take (index + 1)
    rw [List.filterMap_append, List.take_add_one, hget]
    exact congrArg (· ++ [b]) hsent
  · rw [← List.drop_drop, ← hrest]
    exact List.prefix_append bs rest

theorem At.send_secret (h : s.At index) (b : Bytes) (v : Viewer) :
    At index (s.send (.secret b) true v) := by
  refine ⟨⟨?_, h.1.2⟩, h.2⟩
  change (s.sent ++ [Message.secret b]).filterMap Message.block? = s.session.blocks.take index
  rw [List.filterMap_append]
  exact (List.append_nil _).trans h.1.1

theorem Covered.send (h : s.Covered n) (m : Message) (v : Viewer) :
    Covered n (s.send m true v) := by
  intro j hj
  obtain ⟨i, content, hm, hp, hij, hji⟩ := h j hj
  exact ⟨i, content, List.mem_append_left [m] hm, hp, hij, hji⟩

/-- The new keys go out. -/
theorem Covered.send_secret {keyCount : ℕ} {content : Bytes} (h : s.Covered keyCount)
    (hp : content <+: s.session.keyLines.drop keyCount) (hn : n ≤ keyCount + content.length)
    (v : Viewer) : Covered n (s.send (.secret (secrets content)) true v) := by
  intro j hj
  by_cases hlt : j < keyCount
  · exact h.send _ v j hlt
  · exact ⟨keyCount, content, List.mem_append_right s.sent (List.mem_singleton_self _), hp, by omega,
      by omega⟩

theorem Covered.of_le {n' : ℕ} (h : s.Covered n) (hle : n' ≤ n) : s.Covered n' :=
  fun j hj => h j (hj.trans_le hle)

theorem Upto.sentBlocks_isPrefix (h : s.Upto index) : s.sentBlocks <+: s.session.blocks := by
  rw [h.1]
  exact List.take_prefix index s.session.blocks

/-- What was sent before an error is what was recorded first. -/
theorem Upto.closed (h : s.Upto index) : Ok last (s.goto (.closed false)) := by
  change s.sentBlocks <+: s.session.blocks
  exact h.sentBlocks_isPrefix

/-! ### The steps -/

variable {s' : Stream}

theorem Ok.blocks (h : s.Ok last) (hs : s.act .blocks = some s') : s'.Ok last := by
  obtain ⟨session, viewer, sent⟩ := s
  cases viewer with
  | start =>
    obtain ⟨hsent, hlast⟩ := h
    simp only [act, Session.blocksFrom, List.drop_zero] at hs
    cases hb : session.blocks with
    | nil =>
      rw [hb] at hs
      cases hs
      change (sent.filterMap Message.block?) <+: session.blocks
      rw [show sent = [] from hsent]
      exact List.nil_prefix
    | cons b bs =>
      rw [hb] at hs
      cases hs
      exact ⟨hsent, hlast, by simp [goto, hb]⟩
  | _ => cases hs

theorem Ok.keys {keys : Bytes} (h : s.Ok last) (hs : s.act (.keys keys) = some s') :
    keys = s.session.keyLines ∧ s'.Ok keys.length := by
  obtain ⟨session, viewer, sent⟩ := s
  cases viewer with
  | poll index keyCount =>
    obtain ⟨hat, hc, -⟩ := h
    simp only [act] at hs
    split_ifs at hs with hk hlt
    · cases hs
      rw [not_not] at hk
      exact ⟨hk, hat, hc, le_rfl, (congrArg List.length hk).le⟩
    · cases hs
      exact ⟨not_not.1 hk, hat, hc, not_lt.1 hlt⟩
  | _ => cases hs

theorem Ok.secretBlock (h : s.Ok last) (hs : s.act .secretBlock = some s') : s'.Ok last := by
  obtain ⟨session, viewer, sent⟩ := s
  cases viewer with
  | secrets index keyCount n =>
    obtain ⟨hat, hc, hl, hn⟩ := h
    cases hs
    refine ⟨hat, hl, min keyCount session.keyLines.length, _, rfl, ?_, List.prefix_rfl, ?_⟩
    · exact Covered.of_le hc (Nat.min_le_left _ _)
    · change n ≤ session.keyLines.length at hn
      change n ≤ min keyCount session.keyLines.length +
        (session.keyLines.drop (min keyCount session.keyLines.length)).length
      rw [List.length_drop]
      omega
  | _ => cases hs

theorem Ok.liveBlocks {clock : ℕ → Time} (h : s.Ok last)
    (hs : s.act (.liveBlocks clock) = some s') : s'.Ok last := by
  obtain ⟨session, viewer, sent⟩ := s
  cases viewer with
  | live index keyCount =>
    obtain ⟨hat, hc, hl⟩ := h
    cases hs
    exact ⟨hat, hc, hl, session.liveBlocks_prefix clock index, fun h => Session.liveBlocks_done h⟩
  | _ => cases hs

theorem Ok.send {ok : Bool} (h : s.Ok last) (hs : s.act (.send ok) = some s') : s'.Ok last := by
  obtain ⟨session, viewer, sent⟩ := s
  cases viewer with
  | first b =>
    obtain ⟨hsent, rfl, hb⟩ := h
    cases hs
    have hupto : Upto 0 ⟨session, .first b, sent⟩ :=
      ⟨by rw [sentBlocks, show sent = [] from hsent]; rfl, Nat.zero_le _⟩
    cases ok with
    | false => exact hupto.closed
    | true =>
      obtain ⟨rest, hrest⟩ := List.head?_eq_some_iff.1 hb
      have hp : b :: rest <+: session.blocks.drop 0 := by
        rw [List.drop_zero, show session.blocks = b :: rest from hrest]
      exact ⟨(hupto.send_block hp _).1, fun j hj => absurd hj (Nat.not_lt_zero j), le_rfl⟩
  | sendSecrets index n b =>
    obtain ⟨hat, hl, keyCount, content, rfl, hc, hp, hn⟩ := h
    cases hs
    cases ok with
    | false => exact hat.1.closed
    | true => exact ⟨hat.send_secret _ _, hc.send_secret hp hn _, hl⟩
  | sendBlocks index keyCount bs done =>
    obtain ⟨hat, hc, hl, hp, hd⟩ := h
    cases bs with
    | nil => cases hs
    | cons b bs =>
      cases hs
      cases ok with
      | false => exact hat.1.closed
      | true =>
        obtain ⟨hat', hbs⟩ := hat.1.send_block hp (.sendBlocks (index + 1) keyCount bs done)
        refine ⟨hat', hc.send _ _, hl, hbs, fun hdone => ⟨(hd hdone).1, ?_⟩⟩
        change bs = session.blocks.drop (index + 1)
        rw [← List.drop_drop, ← (hd hdone).2]
        rfl
  | _ => cases hs

theorem Ok.wait {ok : Bool} (h : s.Ok last) (hs : s.act (.wait ok) = some s') : s'.Ok last := by
  obtain ⟨session, viewer, sent⟩ := s
  cases viewer with
  | sendBlocks index keyCount bs done =>
    obtain ⟨hat, hc, hl, hp, hd⟩ := h
    cases bs with
    | cons b bs => cases hs
    | nil =>
      simp only [act] at hs
      split_ifs at hs with hdone hok
      · cases hs
        obtain ⟨hend, hnil⟩ := hd hdone
        refine ⟨hend, ?_, Covered.of_le hc hl⟩
        exact hat.1.1.trans (List.take_of_length_le (List.drop_eq_nil_iff.1 hnil.symm))
      · cases hs
        exact ⟨hat, hc, hl⟩
      · cases hs
        exact hat.1.closed
  | _ => cases hs

theorem At.sent_ne_nil (h : s.At index) : s.sent ≠ [] := by
  intro hnil
  obtain ⟨⟨hsent, hle⟩, hpos⟩ := h
  have hlen := congrArg List.length hsent
  rw [sentBlocks, hnil, List.length_take] at hlen
  simp only [List.filterMap_nil, List.length_nil] at hlen
  omega

/-- A step that neither records nor sends only moves the viewer on. -/
theorem act_goto {a : Act} (hs : s.act a = some s') (hrecord : ∀ e, a ≠ .record e)
    (hsend : ∀ ok, a ≠ .send ok) : ∃ v, s' = s.goto v := by
  have of_some : ∀ {v}, some (s.goto v) = some s' → ∃ v, s' = s.goto v :=
    fun h => ⟨_, (Option.some.inj h).symm⟩
  unfold act at hs
  split at hs
  · exact absurd rfl (hrecord _)
  · split at hs <;> exact of_some hs
  · exact absurd rfl (hsend _)
  · split_ifs at hs <;> exact of_some hs
  · exact of_some hs
  · exact absurd rfl (hsend _)
  · exact of_some hs
  · exact absurd rfl (hsend _)
  · split_ifs at hs <;> exact of_some hs
  · cases hs

/-- A step other than of the session keeps the session, and sends at most one
    message; if it is the first, it is the first block. -/
theorem Ok.act_cases {a : Act} (h : s.Ok last) (hs : s.act a = some s')
    (ha : ∀ e, a ≠ .record e) :
    s'.session = s.session ∧ (s'.sent = s.sent ∨ ∃ m, s'.sent = s.sent ++ [m] ∧
      (s.sent = [] → ∃ b, m = .block b ∧ s.session.blocks.head? = some b)) := by
  by_cases hsend : ∃ ok, a = .send ok
  · obtain ⟨ok, rfl⟩ := hsend
    obtain ⟨session, viewer, sent⟩ := s
    cases viewer with
    | first b =>
      cases hs
      cases ok with
      | false => exact ⟨rfl, .inl rfl⟩
      | true => exact ⟨rfl, .inr ⟨_, rfl, fun _ => ⟨b, rfl, h.2.2⟩⟩⟩
    | sendSecrets index n b =>
      cases hs
      cases ok with
      | false => exact ⟨rfl, .inl rfl⟩
      | true => exact ⟨rfl, .inr ⟨_, rfl, fun hnil => absurd hnil h.1.sent_ne_nil⟩⟩
    | sendBlocks index keyCount bs done =>
      cases bs with
      | nil => cases hs
      | cons b bs =>
        cases hs
        cases ok with
        | false => exact ⟨rfl, .inl rfl⟩
        | true => exact ⟨rfl, .inr ⟨_, rfl, fun hnil => absurd hnil h.1.sent_ne_nil⟩⟩
    | _ => cases hs
  · obtain ⟨v, rfl⟩ := act_goto hs ha fun ok hok => hsend ⟨ok, hok⟩
    exact ⟨rfl, .inl rfl⟩

theorem Ok.sentBlocks_isPrefix (h : s.Ok last) : s.sentBlocks <+: s.session.blocks := by
  obtain ⟨session, viewer, sent⟩ := s
  cases viewer with
  | start =>
    rw [sentBlocks, show sent = [] from h.1]
    exact List.nil_prefix
  | first b =>
    rw [sentBlocks, show sent = [] from h.1]
    exact List.nil_prefix
  | poll index keyCount => exact h.1.1.sentBlocks_isPrefix
  | secrets index keyCount n => exact h.1.1.sentBlocks_isPrefix
  | sendSecrets index n b => exact h.1.1.sentBlocks_isPrefix
  | live index keyCount => exact h.1.1.sentBlocks_isPrefix
  | sendBlocks index keyCount bs done => exact h.1.1.sentBlocks_isPrefix
  | closed normal =>
    cases normal with
    | false => exact h
    | true => rw [h.2.1]

/-- What holds of a stream after a history. -/
structure Inv (as : List Act) (s : Stream) : Prop where
  ok : s.Ok (lastKeys as).length
  keys : lastKeys as <+: s.session.keyLines
  header : ∃ link, s.session.blocks.head? = some (sectionHeader link) ∧
    ∀ m ∈ s.sent.head?, m = .block (sectionHeader link)

theorem Ok.step {as : List Act} {a : Act} (h : s.Ok (lastKeys as).length)
    (hs : s.act a = some s') : s'.Ok (lastKeys (as ++ [a])).length := by
  rw [lastKeys_snoc]
  cases a with
  | record e =>
    cases hs
    exact h.record e
  | blocks => exact h.blocks hs
  | keys keys => exact (h.keys hs).2
  | secretBlock => exact h.secretBlock hs
  | liveBlocks clock => exact h.liveBlocks hs
  | send ok => exact h.send hs
  | wait ok => exact h.wait hs

theorem Inv.step {as : List Act} {a : Act} (h : Inv as s) (hs : s.act a = some s') :
    Inv (as ++ [a]) s' := by
  obtain ⟨link, hhead, hfirst⟩ := h.header
  by_cases ha : ∃ e, a = .record e
  · obtain ⟨e, rfl⟩ := ha
    obtain rfl := Option.some.inj hs
    refine ⟨h.ok.step hs, ?_, link, ?_, hfirst⟩
    · rw [lastKeys_snoc]
      exact h.keys.trans (s.session.keyLines_prefix_after e)
    · obtain ⟨new, hnew⟩ := s.session.blocks_prefix_after e
      change (s.session.after e).blocks.head? = _
      rw [← hnew, List.head?_append, hhead, Option.some_or]
  · obtain ⟨hsession, hsent⟩ := h.ok.act_cases hs fun e he => ha ⟨e, he⟩
    refine ⟨h.ok.step hs, ?_, link, hsession ▸ hhead, ?_⟩
    · rw [hsession, lastKeys_snoc]
      cases a with
      | keys keys =>
        rw [(h.ok.keys hs).1]
      | _ => exact h.keys
    · rcases hsent with hsent | ⟨m, hsent, hm⟩
      · rw [hsent]
        exact hfirst
      · rw [hsent, List.head?_append]
        cases hnil : s.sent with
        | nil =>
          obtain ⟨b, rfl, hb⟩ := hm hnil
          rw [hhead] at hb
          simp [Option.some.inj hb]
        | cons m' ms =>
          intro m'' hm''
          exact hfirst m'' (by rw [hnil]; exact hm'')

/-- A session starts with the section header. -/
theorem blocks_emit_header (owner kind user : Bytes) (port tcpPort : ℤ) (now now' : Time)
    (link : ℕ) :
    ((Session.fresh owner kind user port tcpPort now).emit now' (sectionHeader link)).2.blocks =
      [sectionHeader link] := by
  have hlen : (sectionHeader link).length = 48 := by
    simp [sectionHeader, block, putUintLE, length_putUint]
  unfold Session.emit
  rw [if_neg (by simp [Session.fresh]), if_neg (by simp [Session.fresh, hlen, maxBytes])]
  rfl

theorem inv_of_run {as : List Act} (h : system.Run as s) : Inv as s := by
  refine h.invariant (P := Inv) (fun s hs => ?_) fun as s a s' hI hs => hI.step hs
  obtain ⟨⟨owner, kind, user, port, tcpPort, now, now', link, hsession⟩, hviewer, hsent⟩ := hs
  obtain ⟨session, viewer, sent⟩ := s
  obtain rfl : viewer = .start := hviewer
  obtain rfl : sent = [] := hsent
  obtain rfl : session = _ := hsession
  refine ⟨⟨rfl, rfl⟩, List.nil_prefix, link, ?_, by simp⟩
  rw [blocks_emit_header]
  rfl

/-- Keys and a block are recorded, and the session is stopped while the viewer reads. -/
def sampleActs : List Act :=
  [.record (.write [7, 8]), .blocks, .send true, .keys [7, 8], .secretBlock, .send true,
    .record (.emit 1 [9]), .record (.stop "stopped"), .liveBlocks fun _ => 0, .send true, .wait true]

theorem sampleActs_run :
    ∃ s, system.Run sampleActs s ∧ s.viewer = .closed true ∧ s.session.blocks.length = 2 := by
  have h : system.Run []
      ⟨((Session.fresh [1] (str "vpn") [] 443 443 0).emit 0 (sectionHeader 1)).2, .start, []⟩ :=
    .init ⟨⟨_, _, _, _, _, _, _, _, rfl⟩, rfl, rfl⟩
  exact ⟨_, h.foldlM (f := fun s a => s.act a) (fun _ _ _ h => h) rfl, rfl, rfl⟩

/-- The viewer sees exactly the recorded capture. However the session records
    while it is read, the blocks sent are the first ones recorded, in order; the
    first message is the section header; and when the stream ends with the normal
    closure, the session has ended, all its blocks were sent, and so was every
    byte of the keys that were there when the keys were last read. -/
theorem sent_recorded {as : List Act} (h : system.Run as s) :
    s.sentBlocks <+: s.session.blocks ∧
    (∃ link, ∀ m ∈ s.sent.head?, m = .block (sectionHeader link)) ∧
    (s.viewer = .closed true →
      s.session.state ≠ .running ∧ s.sentBlocks = s.session.blocks ∧
      lastKeys as <+: s.session.keyLines ∧
      ∀ j < (lastKeys as).length, ∃ i content, .secret (secrets content) ∈ s.sent ∧
        content <+: s.session.keyLines.drop i ∧ i ≤ j ∧ j < i + content.length) := by
  obtain ⟨hok, hkeys, link, -, hfirst⟩ := inv_of_run h
  refine ⟨hok.sentBlocks_isPrefix, ⟨link, hfirst⟩, fun hclosed => ?_⟩
  obtain ⟨session, viewer, sent⟩ := s
  obtain rfl : viewer = .closed true := hclosed
  exact ⟨hok.1, hok.2.1, hkeys, hok.2.2⟩

/-- Both blocks of the sample are sent. -/
theorem sent_recorded_sample :
    ∃ s : Stream, s.viewer = .closed true ∧ s.sentBlocks = s.session.blocks ∧
      s.session.blocks.length = 2 := by
  obtain ⟨s, hrun, hclosed, hlen⟩ := sampleActs_run
  exact ⟨s, hclosed, ((sent_recorded hrun).2.2 hclosed).2.1, hlen⟩

end Stream

end QuicLab.DebugCapture
