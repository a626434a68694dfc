import QuicLab.DebugCapture.Convert
import QuicLab.DebugCapture.Recording

/-!
# Downloads and live messages are well-formed

What a capture records comes from `readPCAP`, from `packetAt` and from the writes of
secrets (`Recordings.Label.Genuine`). Each gives a block of the format (`recordBlock_eq`,
`commentedBlock_eq`, `secrets_eq`), so that the blocks of a session are the section
header and then a row of blocks (`Session.Formed`), and so is the file that
`captureDownload` makes of them. The viewer of a session goes through the states of
`Stream`, and what it sends are blocks of the session and blocks of secrets.
-/

namespace QuicLab.DebugCapture

open Go Pcap

/-! ### Blocks -/

/-- The block of the secrets `p`. -/
def secretsBlock (p : Bytes) : Pcapng.Block where
  kind := 10
  body := ByteOrder.little.put 4 0x544c534b ++
    (ByteOrder.little.put 4 p.length ++ Pcapng.pad p)

theorem secrets_eq (p : Bytes) : secrets p = (secretsBlock p).bytes := by
  rw [secrets, block_eq, Pcapng.pad_append, List.append_assoc]
  · rfl
  · simp [putUintLE_eq]

theorem length_secretsBlock (p : Bytes) :
    (secretsBlock p).body.length = 8 + Pcapng.padded p.length := by
  simp only [secretsBlock, List.length_append, ByteOrder.length_put, Pcapng.length_pad]
  omega

theorem fits_secretsBlock {p : Bytes} (h : p.length ≤ 2 ^ 20) : (secretsBlock p).Fits := by
  refine ⟨show 10 < 256 ^ 4 by decide, ?_, ?_⟩
  · rw [length_secretsBlock, Pcapng.padded]
    omega
  · rw [length_secretsBlock, Pcapng.padded]
    omega

/-- The secrets are read back. -/
theorem secrets_secretsBlock {p : Bytes} (h : p.length ≤ 2 ^ 20) :
    (secretsBlock p).secrets = some (0x544c534b, p) := by
  have hn : ByteOrder.little.field 4 4 (secretsBlock p).body = p.length := by
    rw [secretsBlock, ByteOrder.field_append _ (ByteOrder.length_put _ _ _),
      Nat.mod_eq_of_lt (h.trans_lt (by decide))]
  have hkind : ByteOrder.little.field 0 4 (secretsBlock p).body = 0x544c534b := by
    rw [secretsBlock, ByteOrder.field_zero_append, Nat.mod_eq_of_lt (by decide)]
  have hdata : ((secretsBlock p).body.drop 8).take p.length = p := by
    rw [secretsBlock, ← List.append_assoc, List.drop_left' (by simp), Pcapng.pad,
      List.take_left' rfl]
  have hlen : 8 + p.length ≤ (secretsBlock p).body.length := by
    rw [length_secretsBlock]
    exact Nat.add_le_add_left (Pcapng.le_padded _) 8
  rw [Pcapng.Block.secrets, hn, if_pos ⟨rfl, hlen⟩, hkind, hdata]

/-- The options of a packet with a comment: the comment, and the end of the options. -/
def commentOptions (comment : Bytes) : Bytes :=
  Pcapng.optionBytes 1 comment ++ Pcapng.optionBytes 0 []

/-- The block of a packet with a comment. -/
def commentBlock (p comment : Bytes) (us : ℕ) : Pcapng.Block :=
  Pcapng.packetBlock ⟨us, p.length, p⟩ (commentOptions comment)

theorem length_commentBlock (p comment : Bytes) (us : ℕ) :
    (commentBlock p comment us).body.length =
      28 + Pcapng.padded p.length + Pcapng.padded comment.length := by
  simp only [commentBlock, commentOptions, Pcapng.packetBlock, List.length_append,
    ByteOrder.length_put, Pcapng.length_pad, Pcapng.length_optionBytes, List.length_nil]
  rw [show Pcapng.padded 0 = 0 from rfl]
  omega

theorem aligned_commentBlock (p comment : Bytes) (us : ℕ) :
    (commentBlock p comment us).body.length % 4 = 0 := by
  rw [length_commentBlock, Pcapng.padded, Pcapng.padded]
  omega

theorem commentedBlock_eq (p comment : Bytes) (us : ℕ) :
    commentedBlock p comment us = (commentBlock p comment us).bytes := by
  have hbody : putUintLE 4 0 ++ putUintLE 4 (us / 2 ^ 32) ++ putUintLE 4 us ++
      putUintLE 4 p.length ++ putUintLE 4 p.length ++ p ++
      List.replicate ((p.length + 3) / 4 * 4 - p.length) 0 ++
      (putUintLE 2 1 ++ putUintLE 2 comment.length ++ comment ++
        List.replicate ((comment.length + 3) / 4 * 4 - comment.length) 0) ++ [0, 0, 0, 0] =
      (commentBlock p comment us).body := by
    simp only [commentBlock, commentOptions, Pcapng.packetBlock, Pcapng.optionBytes, Pcapng.pad,
      Pcapng.padded, putUintLE_eq, List.append_assoc]
    rfl
  rw [commentedBlock, hbody, block_eq, Pcapng.pad_of_aligned (aligned_commentBlock p comment us)]
  rfl

theorem fits_commentBlock {p comment : Bytes} (hp : p.length ≤ 65535)
    (hcomment : comment.length < 2 ^ 16) (us : ℕ) : (commentBlock p comment us).Fits := by
  refine ⟨show 6 < 256 ^ 4 by decide, aligned_commentBlock p comment us, ?_⟩
  rw [length_commentBlock, Pcapng.padded, Pcapng.padded]
  omega

/-- The packet and the comment are read back. -/
theorem packet_commentBlock {p comment : Bytes} {us : ℕ} (hp : p.length ≤ 65535)
    (hcomment : comment.length < 2 ^ 16) (hus : us < 2 ^ 64) :
    (commentBlock p comment us).packet = some (⟨us, p.length, p⟩, commentOptions comment) ∧
      Pcapng.readOptions (commentOptions comment) = some [(1, comment), (0, [])] := by
  have hlen : p.length < 256 ^ 4 := hp.trans_lt (by decide)
  exact ⟨Pcapng.packet_packetBlock hus hlen hlen _,
    Pcapng.readOptions_single (by decide) (by decide) hcomment⟩

/-! ### Sessions -/

/-- What the event emits, if anything, is a block of the format of which `P` holds. -/
def Session.Event.Formed (P : Pcapng.Block → Prop) : Session.Event → Prop
  | .emit _ b => ∃ x, P x ∧ b = x.bytes
  | _ => True

/-- What the callback of `Start` emits is what `readPCAP` makes of a record. -/
def Session.Event.Genuine : Session.Event → Prop
  | .emit _ b => ∃ x : Record, x.Valid ∧
    b = recordBlock (x.seconds * 1000000 + x.micros) x.data.length x.original x.data
  | _ => True

/-- The packets are those given to `packetAt`, with a comment of a fixed text and the
    identifier of a user, or those of `tcpdump`. -/
def Recordings.Label.Genuine : Recordings.Label → Prop
  | .call (.record _ e) _ _ _ _ => e.Genuine
  | .call (.start _ _ _ (.ready _ _ events)) _ _ _ _ => ∀ e ∈ events, e.Genuine
  | .packetAt _ _ comment us _ => comment.length < 2 ^ 16 ∧ us < 2 ^ 64
  | _ => True

/-- The block of a packet. -/
def PacketBlock (b : Pcapng.Block) : Prop := b.Fits ∧ b.kind = 6

theorem Session.Event.Genuine.formed {e : Session.Event} (h : e.Genuine) :
    e.Formed PacketBlock := by
  cases e with
  | emit now b =>
    obtain ⟨x, hx, rfl⟩ := h
    exact ⟨_, ⟨fits_packetBlock hx, rfl⟩, recordBlock_eq x⟩
  | write p => trivial
  | stop reason => trivial

theorem Session.Event.Formed.mono {P Q : Pcapng.Block → Prop} {e : Session.Event}
    (h : e.Formed P) (hPQ : ∀ x, P x → Q x) : e.Formed Q := by
  cases e with
  | emit now b =>
    obtain ⟨x, hx, rfl⟩ := h
    exact ⟨x, hPQ x hx, rfl⟩
  | write p => trivial
  | stop reason => trivial

/-- What happens to a session before it comes into the table. -/
theorem Recordings.Label.Genuine.startup {c : Call} {now : Time} {random : Bytes}
    {result : Except Error Bytes} {ports : ℤ × ℤ} {events : List Session.Event}
    (h : Recordings.Label.Genuine (.call c now random result ports))
    (hc : c.startup = some events) : ∀ e ∈ events, e.Genuine := by
  cases c with
  | start owner kind user startup =>
    cases startup with
    | failed e => cases hc
    | ready link t events' =>
      cases hc
      exact h
  | startUser owner user iface ip visited =>
    cases hc
    exact List.forall_mem_nil _
  | _ => cases hc

namespace Session

variable {P : Pcapng.Block → Prop}

/-- The blocks are the section header and then a row of blocks of the format, of which `P`
    holds. -/
def Formed (P : Pcapng.Block → Prop) (s : Session) : Prop :=
  ∃ (link : ℕ) (bs : List Pcapng.Block),
    s.blocks = sectionHeader link :: bs.map Pcapng.Block.bytes ∧ ∀ b ∈ bs, P b

theorem Formed.of_blocks {s s' : Session} (h : s.Formed P) (hs : s'.blocks = s.blocks) :
    s'.Formed P := by
  obtain ⟨link, bs, hblocks, hbs⟩ := h
  exact ⟨link, bs, hs.trans hblocks, hbs⟩

variable {s : Session}

theorem Formed.after (h : s.Formed P) {e : Event} (he : e.Formed P) :
    (s.after e).Formed P := by
  cases e with
  | emit now b =>
    obtain ⟨x, hx, rfl⟩ := he
    rw [Session.after, emit]
    split_ifs
    · exact h
    · exact h.of_blocks rfl
    · obtain ⟨link, bs, hblocks, hbs⟩ := h
      refine ⟨link, bs ++ [x], ?_, ?_⟩
      · simp [hblocks]
      · intro b hb
        rcases mem_snoc.1 hb with hb | hb
        · exact hbs b hb
        · rwa [hb]
  | write p =>
    rw [Session.after, write]
    split_ifs
    · exact h
    · exact h.of_blocks rfl
  | stop reason => exact h.of_blocks (s.still_stop reason).blocks

theorem Made.formed {events : List Event} (h : s.Made events) (he : ∀ e ∈ events, e.Formed P) :
    s.Formed P := by
  obtain ⟨owner, kind, user, port, tcpPort, now, t, link, rfl⟩ := h
  induction events using List.reverseRecOn with
  | nil =>
    rw [List.foldl_nil, emit_header]
    exact ⟨link, [], rfl, List.forall_mem_nil _⟩
  | append_singleton events e ih =>
    rw [List.foldl_append]
    exact (ih fun e' he' => he e' (List.mem_append_left [e] he')).after (he e (by simp))

/-- The block that `packetAt` records. -/
theorem packetAt_blocks {p comment b : Bytes} {us : ℕ} {now : Time}
    (h : (s.packetAt p comment us now).blocks = s.blocks ++ [b]) :
    p.length ≤ 65535 ∧ b = commentedBlock p comment us := by
  have hne : s.blocks ≠ s.blocks ++ [b] := by simp
  rw [packetAt] at h
  split_ifs at h with hp
  · exact absurd h hne
  · rw [emit] at h
    split_ifs at h
    · exact absurd h hne
    · exact absurd h hne
    · rw [not_or] at hp
      exact ⟨by omega, List.singleton_inj.1 (List.append_cancel_left h).symm⟩

/-- What is taken is not too long. -/
theorem length_of_write {p : Bytes} (h : (s.write p).1 = true) :
    p.length ≤ 2 ^ 20 := by
  rw [write] at h
  split_ifs at h with hfull
  rw [not_or] at hfull
  omega

end Session

namespace Recordings

variable {w w' : Recordings}

/-- The sessions are well-formed, and so are the blocks of secrets that are to be emitted. -/
structure Formed (w : Recordings) : Prop where
  sessions : ∀ id s, w.session id = some s → s.Formed Pcapng.Block.Fits
  writes : ∀ t ∈ w.writes, t.emitting ≠ none → t.p.length ≤ 2 ^ 20

theorem Feeds.formed {a : Label} {id : Bytes} {e : Session.Event} (hw : w.Formed)
    (ha : a.Genuine) (h : w.Feeds id a e) : e.Formed Pcapng.Block.Fits := by
  cases h with
  | record _ => exact ha.formed.mono fun _ hx => hx.1
  | packetAt _ hp => exact ⟨_, fits_commentBlock hp ha.1 _, commentedBlock_eq _ _ _⟩
  | keyWrite _ => trivial
  | keyEmit h =>
    have hp := hw.writes _ (List.mem_of_getElem? h) (by simp)
    exact ⟨_, fits_secretsBlock hp, secrets_eq _⟩

theorem Formed.step {a : Label} (h : w.Formed) (ha : a.Genuine) (hstep : w.step a = some w') :
    w'.Formed := by
  refine ⟨fun id s' hs' => ?_, ?_⟩
  · rcases step_session hstep hs' with
      ⟨-, c, now, random, result, ports, events, rfl, hc, hmade, -⟩ | ⟨s, hs, hstill | ⟨e, he, rfl⟩⟩
    · exact hmade.formed fun e he => (ha.startup hc e he).formed.mono fun _ hx => hx.1
    · exact (h.sessions id s hs).of_blocks hstill.blocks
    · exact (h.sessions id s hs).after (he.formed h ha)
  · have begun : ∀ p targets, ∀ t ∈ w.writes ++ [⟨p, targets, none⟩], t.emitting ≠ none →
        t.p.length ≤ 2 ^ 20 := by
      intro p targets t ht hne
      rcases mem_snoc.1 ht with ht | ht
      · exact h.writes t ht hne
      · rw [ht] at hne
        exact absurd rfl hne
    cases a with
    | call c now random result ports =>
      obtain ⟨-, -, -, rfl⟩ := step_call hstep
      exact h.writes
    | packetAt id p comment us now =>
      cases hstep
      exact h.writes
    | keyLog port udp p selected =>
      obtain ⟨-, rfl⟩ := step_keyLog hstep
      exact begun p selected
    | write id p =>
      cases hstep
      exact begun p [id]
    | keyWrite i id p =>
      obtain ⟨targets, s, hw, -, rfl⟩ := step_keyWrite hstep
      intro t ht hne
      rcases List.mem_or_eq_of_mem_set ht with ht | rfl
      · exact h.writes t ht hne
      · by_cases htaken : (s.write p).1 = true
        · exact Session.length_of_write htaken
        · exact absurd (if_neg htaken) hne
    | keyEmit i id now =>
      obtain ⟨p, targets, hw, rfl⟩ := step_keyEmit hstep
      intro t ht hne
      rcases List.mem_or_eq_of_mem_set ht with ht | rfl
      · exact h.writes t ht hne
      · exact absurd rfl hne
    | view id a =>
      obtain ⟨s, t, -, -, -, -, rfl⟩ := step_view hstep
      exact h.writes

theorem formed_of_run {as : List Label} (h : system.Run as w) (hg : ∀ a ∈ as, a.Genuine) :
    w.Formed := by
  induction h with
  | init h =>
    obtain ⟨c, rfl⟩ := h
    exact ⟨(fun id s hs => by cases hs), List.forall_mem_nil _⟩
  | @step as w w' a _ hstep ih =>
    exact (ih fun b hb => hg b (List.mem_append_left [a] hb)).step (hg a (by simp)) hstep

end Recordings

/-! ### Viewers -/

namespace Stream

variable {t : Stream}

/-- What a viewer knows of a session stays true of it, when nothing is recorded. -/
theorem Ok.still {last : ℕ} {s' : Session} (h : t.Ok last) (hs : t.session.Still s') :
    Ok last { t with session := s' } := by
  obtain ⟨s, viewer, sent⟩ := t
  have hblocks : s'.blocks = s.blocks := hs.blocks
  have hkeys : s'.keyLines = s.keyLines := hs.keyLines
  have hend : s.state ≠ .running → s'.state ≠ .running := fun h => by rwa [hs.ended h]
  cases viewer with
  | start => exact h
  | closed normal =>
    cases normal with
    | false => simpa [Ok, sentBlocks, hblocks] using h
    | true =>
      obtain ⟨hstate, hsent, hcovered⟩ := h
      exact ⟨hend hstate, hsent.trans hblocks.symm, by simpa [Covered, hkeys] using hcovered⟩
  | sendBlocks index keyCount bs done =>
    obtain ⟨hat, hc, hl, hp, hd⟩ := h
    refine ⟨?_, ?_, hl, ?_, ?_⟩
    · simpa [At, Upto, sentBlocks, hblocks] using hat
    · simpa [Covered, hkeys] using hc
    · simpa [hblocks] using hp
    · intro hdone
      exact ⟨hend (hd hdone).1, by simpa [hblocks] using (hd hdone).2⟩
  | _ => simpa [Ok, At, Upto, Covered, sentBlocks, hblocks, hkeys] using h

theorem Inv.still {as : List Act} {s' : Session} (h : Inv as t) (hs : t.session.Still s') :
    Inv as { t with session := s' } := by
  refine ⟨h.ok.still hs, ?_, ?_⟩
  · rw [hs.keyLines]
    exact h.keys
  · rw [hs.blocks]
    exact h.header

/-- How a step of the loop comes to send secrets: the new ones are read when there are
    keys, and sent when they were read; and no others are sent. -/
structure SecretStep (t t' : Stream) : Prop where
  session : t'.session = t.session
  sent : ∀ b, .secret b ∈ t'.sent → .secret b ∈ t.sent ∨ ∃ i n, t.viewer = .sendSecrets i n b
  read : ∀ i n b, t'.viewer = .sendSecrets i n b →
    ∃ k, t.viewer = .secrets i k n ∧ b = t.session.secretBlockSince k
  keys : ∀ i k n, t'.viewer = .secrets i k n → t.session.keyLines ≠ []

/-- Has the loop secrets to read or to send? -/
def withSecrets : Viewer → Bool
  | .secrets _ _ _ => true
  | .sendSecrets _ _ _ => true
  | _ => false

/-- Where there are no keys, no secrets are sent. -/
theorem SecretStep.quiet {t t' : Stream} (h : SecretStep t t') (hkeys : t.session.keyLines = [])
    (hquiet : withSecrets t.viewer = false) (hsent : ∀ b, .secret b ∉ t.sent) :
    withSecrets t'.viewer = false ∧ ∀ b, .secret b ∉ t'.sent := by
  refine ⟨?_, fun b hb => ?_⟩
  · cases hv : t'.viewer with
    | secrets i k n => exact absurd hkeys (h.keys i k n hv)
    | sendSecrets i n b =>
      obtain ⟨k, hk, -⟩ := h.read i n b hv
      rw [hk] at hquiet
      cases hquiet
    | _ => rfl
  · rcases h.sent b hb with hb | ⟨i, n, hv⟩
    · exact hsent b hb
    · rw [hv] at hquiet
      cases hquiet

theorem secretStep_goto {v : Viewer} (hv : withSecrets v = false) (t : Stream) :
    SecretStep t (t.goto v) := by
  refine ⟨rfl, fun _ hb => .inl hb, fun i n b h => ?_, fun i k n h => ?_⟩
  · rw [show v = .sendSecrets i n b from h] at hv
    cases hv
  · rw [show v = .secrets i k n from h] at hv
    cases hv

/-- A message is sent, or the connection fails. -/
theorem secretStep_send {m : Message} {v : Viewer}
    (hm : ∀ b, m = .secret b → ∃ i n, t.viewer = .sendSecrets i n b) (hv : withSecrets v = false)
    (ok : Bool) : SecretStep t (t.send m ok v) := by
  cases ok with
  | false => exact secretStep_goto rfl t
  | true =>
    have hgoto := secretStep_goto hv t
    refine ⟨rfl, fun b hb => ?_, hgoto.read, hgoto.keys⟩
    rcases mem_snoc.1 hb with hb | hb
    · exact .inl hb
    · exact .inr (hm b hb.symm)

theorem secretStep_of_act {a : Act} {t t' : Stream} (h : t.act a = some t')
    (ha : a.isRecord = false) : SecretStep t t' := by
  obtain ⟨s, viewer, sent⟩ := t
  have sendsBlock : ∀ {b b' : Bytes}, Message.block b = .secret b' →
      ∃ i n, viewer = .sendSecrets i n b' := fun h => by cases h
  unfold act at h
  split at h
  · cases ha
  · -- The blocks are read for the first time.
    split at h
    all_goals
      cases h
      exact secretStep_goto rfl _
  · cases h
    exact secretStep_send (fun _ => sendsBlock) rfl _
  · -- The keys are read: there are some, when the new ones are to be read.
    split_ifs at h with hkeys hlt
    · cases h
      refine ⟨rfl, fun _ hb => .inl hb, (fun i n b h => by cases h), fun i k n _ => ?_⟩
      rintro (hnil : s.keyLines = [])
      simp [not_not.1 hkeys, hnil] at hlt
    · cases h
      exact secretStep_goto rfl _
  · -- The new ones are read.
    cases h
    next hviewer =>
      refine ⟨rfl, fun _ hb => .inl hb, fun i n b h => ?_, fun i k n h => by cases h⟩
      cases h
      exact ⟨_, hviewer, rfl⟩
  · -- They are sent.
    cases h
    next hviewer =>
      refine secretStep_send (fun b h => ?_) rfl _
      cases h
      exact ⟨_, _, hviewer⟩
  · cases h
    exact secretStep_goto rfl _
  · cases h
    exact secretStep_send (fun _ => sendsBlock) rfl _
  · split_ifs at h
    all_goals
      cases h
      exact secretStep_goto rfl _
  · cases h

end Stream

/-- The bytes of a message. -/
def Message.bytes : Message → Bytes
  | .block b => b
  | .secret b => b

namespace Recordings

variable {w w' : Recordings}

/-- What the viewers know and send: blocks of the session, and blocks of secrets. -/
structure Viewed (w : Recordings) : Prop where
  idle : ∀ id, w.session id = none → w.viewers id = (.start, [])
  known : ∀ id s, w.session id = some s → ∃ as, Stream.Inv as (w.stream id s)
  reading : ∀ id i n b, (w.viewers id).1 = .sendSecrets i n b →
    ∃ content, b = secrets content ∧ content.length ≤ 2 ^ 20
  sent : ∀ id b, .secret b ∈ (w.viewers id).2 →
    ∃ content, b = secrets content ∧ content.length ≤ 2 ^ 20

variable {a : Label}

/-- Only its own steps move a viewer. -/
theorem step_viewers (h : w.step a = some w') (ha : ∀ id b, a ≠ .view id b) :
    w'.viewers = w.viewers := by
  cases a with
  | call c now random result ports =>
    obtain ⟨-, -, -, rfl⟩ := step_call h
    rfl
  | packetAt id p comment us now =>
    cases h
    rfl
  | keyLog port udp p selected =>
    obtain ⟨-, rfl⟩ := step_keyLog h
    rfl
  | write id p =>
    cases h
    rfl
  | keyWrite i id p =>
    obtain ⟨targets, s, -, -, rfl⟩ := step_keyWrite h
    rfl
  | keyEmit i id now =>
    obtain ⟨p, targets, -, rfl⟩ := step_keyEmit h
    rfl
  | view id b => exact absurd rfl (ha id b)

/-- A viewer takes a step of the loop over its session; all else stays. -/
theorem step_view_cases {id : Bytes} {b : Act} (h : w.step (.view id b) = some w') :
    ∃ s t, w.session id = some s ∧ Stream.SecretStep (w.stream id s) t ∧
      (∀ as, Stream.Inv as (w.stream id s) → Stream.Inv (as ++ [b]) (w'.stream id s)) ∧
      w'.viewers id = (t.viewer, t.sent) ∧
      (∀ id' ≠ id, w'.viewers id' = w.viewers id') ∧
      ∀ id', w'.session id' = w.session id' := by
  obtain ⟨s, t, hs, -, hrecord, hact, rfl⟩ := step_view h
  have hsecret := Stream.secretStep_of_act hact hrecord
  refine ⟨s, t, hs, hsecret, fun as has => ?_, Function.update_self _ _ _,
    fun id' hne => Function.update_of_ne hne _ _, fun _ => rfl⟩
  have ht :
      stream id s { w with viewers := Function.update w.viewers id (t.viewer, t.sent) } = t := by
    simp only [stream, Function.update_self]
    exact congrArg (fun x => Stream.mk x t.viewer t.sent) hsecret.session.symm
  rw [ht]
  exact has.step hact

/-- The session goes on while the viewer stays where it is. -/
theorem Viewed.known_step (h : w.Viewed) (hstep : w.step a = some w') (ha : ∀ id b, a ≠ .view id b)
    {id : Bytes} {s' : Session} (hs' : w'.session id = some s') :
    ∃ as, Stream.Inv as (w'.stream id s') := by
  rw [stream, step_viewers hstep ha]
  rcases step_session hstep hs' with
    ⟨hnone, c, now, random, result, ports, events, rfl, hc, hmade, -⟩ | ⟨s, hs, hs'⟩
  · rw [h.idle id hnone]
    obtain ⟨link, hlink⟩ := hmade.accounted.header
    exact ⟨[], ⟨rfl, rfl⟩, List.nil_prefix, link, hlink, by simp⟩
  · obtain ⟨as, hinv⟩ := h.known id s hs
    rcases hs' with hstill | ⟨e, -, rfl⟩
    · exact ⟨as, hinv.still hstill⟩
    · exact ⟨as ++ [.record e], hinv.step (a := .record e) rfl⟩

theorem Viewed.step (h : w.Viewed) (hkeys : ∀ id s, w.session id = some s → s.Accounted)
    (hstep : w.step a = some w') : w'.Viewed := by
  by_cases ha : ∀ id b, a ≠ .view id b
  · have hviewers := step_viewers hstep ha
    refine ⟨fun id hnone => ?_, fun id s' hs' => h.known_step hstep ha hs', ?_, ?_⟩
    · rw [hviewers]
      cases hs : w.session id with
      | none => exact h.idle id hs
      | some s =>
        obtain ⟨s', hs'⟩ := step_kept hstep hs
        rw [hs'] at hnone
        cases hnone
    · rw [hviewers]
      exact h.reading
    · rw [hviewers]
      exact h.sent
  · push Not at ha
    obtain ⟨id, b, rfl⟩ := ha
    obtain ⟨s, t, hs, hsecret, hinv, hself, hother, hsession⟩ := step_view_cases hstep
    refine ⟨fun id' hnone => ?_, fun id' s' hs' => ?_, fun id' i n b' hv => ?_, fun id' b' hm => ?_⟩
    · rw [hsession] at hnone
      rw [hother id']
      · exact h.idle id' hnone
      · rintro rfl
        rw [hnone] at hs
        cases hs
    · rw [hsession] at hs'
      obtain ⟨as, has⟩ := h.known id' s' hs'
      by_cases hid : id' = id
      · subst hid
        cases hs.symm.trans hs'
        exact ⟨as ++ [b], hinv as has⟩
      · rw [stream, hother id' hid]
        exact ⟨as, has⟩
    · by_cases hid : id' = id
      · subst hid
        rw [hself] at hv
        obtain ⟨k, -, rfl⟩ := hsecret.read i n b' hv
        refine ⟨_, rfl, ?_⟩
        rw [List.length_drop]
        exact (Nat.sub_le _ _).trans (hkeys id' s hs).keys
      · rw [hother id' hid] at hv
        exact h.reading id' i n b' hv
    · by_cases hid : id' = id
      · subst hid
        rw [hself] at hm
        rcases hsecret.sent b' hm with hm | ⟨i, n, hv⟩
        · exact h.sent id' b' hm
        · exact h.reading id' i n b' hv
      · rw [hother id' hid] at hm
        exact h.sent id' b' hm

theorem viewed_of_run {as : List Label} (h : system.Run as w) : w.Viewed := by
  induction h with
  | init h =>
    obtain ⟨c, rfl⟩ := h
    refine ⟨fun _ _ => rfl, (fun id s hs => by cases hs), (fun id i n b hv => by cases hv), ?_⟩
    exact fun id b hm => absurd hm List.not_mem_nil
  | step hrun hstep ih => exact ih.step (fun id s hs => (recorded_of_run hrun id s hs).1) hstep

end Recordings

/-! ### Downloads and messages -/

/-- The file that `captureDownload` writes, of the blocks it has read and the keys it reads
    later. -/
def download : List Bytes → Bytes → Bytes
  | [], _ => []
  | first :: rest, keys => first ++ secrets keys ++ rest.flatten

/-- What the capture client checks in a message, the first one or another. -/
def checkMessage (first : Bool) (b : Bytes) : Option Error :=
  if b.length < 12 ∨ b.length % 4 ≠ 0 then some (.new "invalid capture block")
  else if first = true ∧ ByteOrder.little.field 0 4 b ≠ 0x0a0d0d0a then
    some (.new "capture section header missing")
  else none

/-- The blocks of a download. -/
theorem split_download {P : Pcapng.Block → Prop} (hP : ∀ b, P b → b.Fits) {s : Session}
    (h : s.Formed P) {keys : Bytes} (hkeys : keys.length ≤ 2 ^ 20) :
    ∃ link bs, s.blocks = sectionHeader link :: bs.map Pcapng.Block.bytes ∧ (∀ b ∈ bs, P b) ∧
      (∀ b ∈ headerBlock :: interfaceBlock link :: secretsBlock keys :: bs, b.Fits) ∧
      Pcapng.split (download s.blocks keys) =
        some (headerBlock :: interfaceBlock link :: secretsBlock keys :: bs) := by
  obtain ⟨link, bs, hblocks, hbs⟩ := h
  have hfits : ∀ b ∈ headerBlock :: interfaceBlock link :: secretsBlock keys :: bs, b.Fits := by
    simp only [List.forall_mem_cons]
    exact ⟨fits_headerBlock, fits_interfaceBlock link, fits_secretsBlock hkeys,
      fun b hb => hP b (hbs b hb)⟩
  refine ⟨link, bs, hblocks, hbs, hfits, ?_⟩
  rw [← Pcapng.split_flatMap hfits, hblocks, download, sectionHeader_eq, secrets_eq]
  simp only [List.flatMap_def, List.map_cons, List.flatten_cons, List.append_assoc]

/-- A block of the format passes the checks of the client, as do several. -/
theorem checkMessage_bytes {b : Pcapng.Block} (h : b.Fits) : checkMessage false b.bytes = none := by
  have haligned := h.aligned
  rw [checkMessage, if_neg, if_neg (by simp)]
  rw [Pcapng.Block.length_bytes]
  omega

theorem checkMessage_sectionHeader (first : Bool) (link : ℕ) :
    checkMessage first (sectionHeader link) = none := by
  have hmagic := (fits_headerBlock.fields (interfaceBlock link).bytes).1
  rw [checkMessage, if_neg (by simp [Session.length_sectionHeader]), if_neg]
  rw [sectionHeader_eq, hmagic]
  exact fun h => h.2 rfl

namespace Recordings

variable {w : Recordings}

/-- Every message that was sent passes the checks of the client. -/
theorem checkMessage_sent {as : List Label} (h : system.Run as w) (hg : ∀ a ∈ as, a.Genuine)
    {id : Bytes} {s : Session} (hs : w.session id = some s) {i : ℕ} {m : Message}
    (hm : (w.viewers id).2[i]? = some m) : checkMessage (i = 0) m.bytes = none := by
  have hviewed := viewed_of_run h
  obtain ⟨_, hinv⟩ := hviewed.known id s hs
  obtain ⟨link, -, hfirst⟩ := hinv.header
  by_cases hi : i = 0
  · -- The first message is the section header.
    subst hi
    rw [← List.head?_eq_getElem?] at hm
    rw [hfirst m hm]
    exact checkMessage_sectionHeader _ link
  · rw [decide_eq_false hi]
    cases m with
    | block b =>
      have hsent : b ∈ s.blocks := by
        refine hinv.ok.sentBlocks_isPrefix.subset (List.mem_filterMap.2 ⟨.block b, ?_, rfl⟩)
        exact List.mem_of_getElem? hm
      obtain ⟨link', bs, hblocks, hbs⟩ := (formed_of_run h hg).sessions id s hs
      rw [hblocks, List.mem_cons, List.mem_map] at hsent
      rcases hsent with rfl | ⟨x, hx, rfl⟩
      · exact checkMessage_sectionHeader false link'
      · exact checkMessage_bytes (hbs x hx)
    | secret b =>
      obtain ⟨content, rfl, hlen⟩ := hviewed.sent id b (List.mem_of_getElem? hm)
      rw [Message.bytes, secrets_eq]
      exact checkMessage_bytes (fits_secretsBlock hlen)

/-- Every download and every live message is well-formed. The download of a session, with
    the keys it has at any other moment, splits into the section header, the description
    of the interface, one block of secrets that holds these keys, and the blocks recorded.
    In each of them, the two lengths agree and are a multiple of four. What `packetAt`
    records is read back as the packet, its time and the comment, which ends the options.
    And every message that `captureStream` has sent passes the checks of the client. -/
theorem downloads_formed {as : List Label} (h : system.Run as w) (hg : ∀ a ∈ as, a.Genuine)
    {id : Bytes} {s : Session} (hs : w.session id = some s) :
    (∀ as' w' s', system.Run as' w' → w'.session id = some s' →
      ∃ link bs, s.blocks = sectionHeader link :: bs.map Pcapng.Block.bytes ∧
        Pcapng.split (download s.blocks s'.keyLines) =
          some (headerBlock :: interfaceBlock link :: secretsBlock s'.keyLines :: bs) ∧
        (secretsBlock s'.keyLines).secrets = some (0x544c534b, s'.keyLines) ∧
        ∀ b ∈ headerBlock :: interfaceBlock link :: secretsBlock s'.keyLines :: bs,
          ByteOrder.little.field 4 4 b.bytes = b.bytes.length ∧
          ByteOrder.little.field (b.bytes.length - 4) 4 b.bytes = b.bytes.length ∧
          b.bytes.length % 4 = 0) ∧
    (∀ (s₀ : Session) (p comment : Bytes) (us : ℕ) (now : Time) (b : Bytes),
      comment.length < 2 ^ 16 → us < 2 ^ 64 →
      (s₀.packetAt p comment us now).blocks = s₀.blocks ++ [b] →
      ∃ x options, Pcapng.readBlock b = some (x, []) ∧
        x.packet = some (⟨us, p.length, p⟩, options) ∧
        Pcapng.readOptions options = some [(1, comment), (0, [])]) ∧
    ∀ (i : ℕ) (m : Message), (w.viewers id).2[i]? = some m →
      checkMessage (i = 0) m.bytes = none := by
  refine ⟨?_, ?_, fun i m hm => checkMessage_sent h hg hs hm⟩
  · intro as' w' s' h' hs'
    have hkeys := (recorded_of_run h' id s' hs').1.keys
    obtain ⟨link, bs, hblocks, -, hfits, hsplit⟩ :=
      split_download (fun _ hb => hb) ((formed_of_run h hg).sessions id s hs) hkeys
    exact ⟨link, bs, hblocks, hsplit, secrets_secretsBlock hkeys, fun b hb => (hfits b hb).lengths⟩
  · intro s₀ p comment us now b hcomment hus hb
    obtain ⟨hp, rfl⟩ := Session.packetAt_blocks hb
    obtain ⟨hpacket, hoptions⟩ := packet_commentBlock hp hcomment hus
    refine ⟨_, _, ?_, hpacket, hoptions⟩
    rw [commentedBlock_eq, ← List.append_nil (commentBlock p comment us).bytes,
      Pcapng.readBlock_bytes (fits_commentBlock hp hcomment us)]

/-- A capture of a user is started, a packet is recorded, and a viewer gets the header. -/
def sampleView : List Label :=
  [.call (.startUser [7] [8] [] [] fun _ => false) 0 [1] (.ok [1]) (0, 0),
    .call (.ticket [1]) 1 [2] (.ok [2]) (0, 0), .call (.redeem [1] [2]) 1 [3] (.ok [3]) (0, 0),
    .call (.attach [1] [3]) 1 [] (.ok [1]) (0, 0), .packetAt [1] [0x45] (str "comment") 5 2,
    .view [1] .blocks, .view [1] (.send true)]

theorem sampleView_run : ∃ w s, system.Run sampleView w ∧ w.session [1] = some s ∧
    s.user = [8] ∧ s.blocks.length = 2 ∧ (w.viewers [1]).2.length = 1 := by
  have h : system.Run [] (new ⟨str "eth0", 4000, ∅, 2, str "/usr/sbin/tcpdump"⟩) := .init ⟨_, rfl⟩
  exact ⟨_, _, h.foldlM (f := step) (fun _ _ _ h => h) rfl, rfl, rfl, rfl, rfl⟩

theorem sampleView_genuine : ∀ a ∈ sampleView, a.Genuine := by
  have hcomment : (str "comment").length < 65536 := by decide
  simpa [sampleView, Label.Genuine] using hcomment

/-- The download of the sample, and the message sent. -/
theorem downloads_formed_sample : ∃ (w : Recordings) (s : Session), w.session [1] = some s ∧
    (∃ link b, Pcapng.split (download s.blocks s.keyLines) =
      some [headerBlock, interfaceBlock link, secretsBlock s.keyLines, b]) ∧
    ∃ m, (w.viewers [1]).2 = [m] ∧ checkMessage true m.bytes = none := by
  obtain ⟨w, s, hrun, hs, -, hblocks, hsent⟩ := sampleView_run
  obtain ⟨hdownload, -, hmessages⟩ := downloads_formed hrun sampleView_genuine hs
  obtain ⟨m, hm⟩ := List.length_eq_one_iff.1 hsent
  obtain ⟨link, bs, hbs, hsplit, -⟩ := hdownload sampleView w s hrun hs
  rw [hbs, List.length_cons, List.length_map, Nat.add_right_cancel_iff, List.length_eq_one_iff]
    at hblocks
  obtain ⟨b, rfl⟩ := hblocks
  exact ⟨w, s, hs, ⟨link, b, hsplit⟩, m, hm, hmessages 0 m (by rw [hm]; rfl)⟩

end Recordings

end QuicLab.DebugCapture
