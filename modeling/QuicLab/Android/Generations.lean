import QuicLab.Android.Controller

/-!
# Which session the router uses

A worker hands its gateway to the router if it has found its token to be the current
generation of the profile. The check and `setGateway` are two steps. Between them, the
profile may be paused and resumed, and the new session may set its own gateway; the old
one then replaces it, and later detaches what it has set.

* `OnTime`: a gateway is set only while the token of its session is still current;
* `Controller.Current`: the gateway of a current session is in the router;
* `live_session_routed`: the router uses the gateway of the current session, if all
  gateways are set on time;
* `live_session_replaced`: the interleaving in which it does not.
-/

namespace QuicLab.Android

open Go Mobile

/-- A worker sets a gateway only while its token is the current generation. -/
def OnTime (x : Controller) : Controller.Step → Prop
  | (.worker t _, _) => ∀ s g, x.workers.lookup t = some s → s.pc = .set g →
    x.generations.lookup s.id = some t
  | _ => True

namespace Controller

variable {p : MultipleVpnPlan} {as : List Step} {x x' : Controller} {c : Option RouterCall}

/-! ### Paused profiles -/

/-- No session has the current generation of the profile. -/
def Unowned (id : Bytes) (x : Controller) : Prop :=
  ∀ t, x.generations.lookup id = some t → x.workers.lookup t = none

/-- Generations were counted, and a paused profile has no session, once it has a new
    generation, until it is started again. -/
structure Phase (x : Controller) : Prop where
  workers : ∀ t s, x.workers.lookup t = some s → t ≤ x.generation
  generations : ∀ id t, x.generations.lookup id = some t → t ≤ x.generation
  paused : ∀ id ∈ x.paused, x.main ≠ .disable id → x.main ≠ .renew id → Unowned id x
  enable : ∀ id, x.main = .enable id → id ∉ x.paused ∧ Unowned id x
  start : ∀ id, x.main = .start id → id ∉ x.paused
  init : ∀ rest, x.main = .init rest → x.paused = ∅

theorem Unowned.congr {id : Bytes} (h : Unowned id x)
    (hgen : x'.generations.lookup id = x.generations.lookup id)
    (hworkers : ∀ t, x.generations.lookup id = some t → x.workers.lookup t = none →
      x'.workers.lookup t = none) : Unowned id x' := by
  intro t ht
  rw [hgen] at ht
  exact hworkers t ht (h t ht)

/-- The main thread goes on, and no session is made. -/
theorem Phase.same (h : Phase x) (hworkers : ∀ t, x.workers.lookup t = none → x'.workers.lookup t = none)
    (hgeneration : x'.generation = x.generation) (hgenerations : x'.generations = x.generations)
    (hpaused : x'.paused = x.paused)
    (hpausing : ∀ id, x.main = .disable id ∨ x.main = .renew id →
      x'.main = .disable id ∨ x'.main = .renew id)
    (henable : ∀ id, x'.main = .enable id → x.main = .enable id)
    (hstart : ∀ id, x'.main = .start id → x.main = .start id ∨ x.main = .enable id)
    (hinit : ∀ rest, x'.main = .init rest → ∃ rest', x.main = .init rest') : Phase x' := by
  have hunowned : ∀ {id}, Unowned id x → Unowned id x' := fun hu =>
    hu.congr (by rw [hgenerations]) fun t _ => hworkers t
  refine ⟨fun t s hs => ?_, fun id t ht => ?_, fun id hid hd hr => ?_, fun id hm => ?_,
    fun id hm => ?_, fun rest hm => ?_⟩
  · rw [hgeneration]
    cases hold : x.workers.lookup t with
    | none =>
      rw [hworkers t hold] at hs
      cases hs
    | some s₀ => exact h.workers t s₀ hold
  · rw [hgeneration]
    exact h.generations id t (hgenerations ▸ ht)
  · have hnot : ¬ (x.main = .disable id ∨ x.main = .renew id) := fun hc =>
      (hpausing id hc).elim hd hr
    rw [not_or] at hnot
    exact hunowned (h.paused id (hpaused ▸ hid) hnot.1 hnot.2)
  · obtain ⟨hid, hu⟩ := h.enable id (henable id hm)
    exact ⟨hpaused ▸ hid, hunowned hu⟩
  · rw [hpaused]
    rcases hstart id hm with hm | hm
    · exact h.start id hm
    · exact (h.enable id hm).1
  · obtain ⟨rest', hm'⟩ := hinit rest hm
    rw [hpaused]
    exact h.init rest' hm'

/-- A profile that is not paused has a new generation. -/
theorem Unowned.other (h : Phase x) {id id' : Bytes} (hu : Unowned id' x) (hne : id' ≠ id)
    (hgenerations : x'.generations = x.generations.insert id (x.generation + 1))
    (hworkers : ∀ t, t ≤ x.generation → x'.workers.lookup t = x.workers.lookup t) :
    Unowned id' x' := by
  refine hu.congr ?_ fun t ht hnone => ?_
  · rw [hgenerations, Map.lookup_insert', if_neg hne]
  · rw [hworkers t (h.generations id' t ht), hnone]

theorem Phase.started (h : Phase x) {id : Bytes} (hid : id ∉ x.paused) {m : Main}
    (hmain : m = .idle ∨ ∃ rest, m = .init rest ∧ x.paused = ∅)
    (hother : ∀ id, x.main ≠ .disable id ∧ x.main ≠ .renew id) :
    Phase { x.start id with main := m } := by
  have hworkers : ∀ t, (x.workers.insert (x.generation + 1) { id := id }).lookup t =
      if t = x.generation + 1 then some { id := id } else x.workers.lookup t :=
    fun t => Map.lookup_insert' _ _ _ _
  have hgens : ∀ id', (x.generations.insert id (x.generation + 1)).lookup id' =
      if id' = id then some (x.generation + 1) else x.generations.lookup id' :=
    fun id' => Map.lookup_insert' _ _ _ _
  refine ⟨fun t s hs => ?_, fun id' t ht => ?_, fun id' hid' _ _ => ?_, fun id' hm => ?_,
    fun id' hm => ?_, fun rest hm => ?_⟩
  · rw [show ({ x.start id with main := m } : Controller).workers.lookup t = _ from hworkers t] at hs
    split_ifs at hs with ht
    · exact ht.le
    · exact (h.workers t s hs).trans (Nat.le_succ _)
  · rw [show ({ x.start id with main := m } : Controller).generations.lookup id' = _ from hgens id']
      at ht
    split_ifs at ht with heq
    · cases ht
      exact le_rfl
    · exact (h.generations id' t ht).trans (Nat.le_succ _)
  · have hne : id' ≠ id := fun heq => hid (heq ▸ hid')
    refine Unowned.other h (h.paused id' hid' (hother id').1 (hother id').2) hne rfl fun t ht => ?_
    exact (hworkers t).trans (if_neg (by omega))
  · rcases hmain with hm' | ⟨_, hm', -⟩ <;> cases hm'.symm.trans hm
  · rcases hmain with hm' | ⟨_, hm', -⟩ <;> cases hm'.symm.trans hm
  · rcases hmain with hm' | ⟨_, _, hempty⟩
    · cases hm'.symm.trans hm
    · exact hempty

theorem Phase.renewed (h : Phase x) {id : Bytes} (hmain : x.main = .renew id) :
    Phase { x.renew id with main := .closeSession id } := by
  have hgens : ∀ id', (x.generations.insert id (x.generation + 1)).lookup id' =
      if id' = id then some (x.generation + 1) else x.generations.lookup id' :=
    fun id' => Map.lookup_insert' _ _ _ _
  refine ⟨fun t s hs => (h.workers t s hs).trans (Nat.le_succ _), fun id' t ht => ?_,
    fun id' hid' _ _ => ?_, fun id' hm => (by cases hm), fun id' hm => (by cases hm),
    fun rest hm => by cases hm⟩
  · rw [show ({ x.renew id with main := .closeSession id } : Controller).generations.lookup id' = _
      from hgens id'] at ht
    split_ifs at ht with heq
    · cases ht
      exact le_rfl
    · exact (h.generations id' t ht).trans (Nat.le_succ _)
  · by_cases heq : id' = id
    · intro t ht
      cases ((hgens id').trans (if_pos heq)).symm.trans ht
      refine Option.eq_none_iff_forall_ne_some.2 fun s hs => ?_
      exact absurd (h.workers _ s hs) (by omega)
    · refine Unowned.other h (h.paused id' hid' ?_ ?_) heq rfl fun _ _ => rfl
      · rw [hmain]
        exact fun hc => by cases hc
      · rw [hmain]
        exact fun hc => heq (by cases hc; rfl)

theorem lookup_modify {t token : ℕ} {f : VpnSession → VpnSession} (h : x.workers.lookup t = none) :
    (x.modify token f).workers.lookup t = none := by
  change (x.workers.update _).lookup t = none
  rw [Map.lookup_update, h]
  rfl

theorem Phase.message (h : Phase x) {m : Message} (hm : x.message p.profiles m = some x') :
    Phase x' := by
  cases m with
  | toggle id =>
    simp only [Controller.message] at hm
    split_ifs at hm with hidle hno hpaused
    · cases hm
      exact h
    · cases hm
      have hu : Unowned id x := h.paused id hpaused (by simp [hidle]) (by simp [hidle])
      refine ⟨h.workers, h.generations, fun id' hid' _ _ => ?_, fun id' hm => ?_,
        fun id' hm => (by cases hm), fun rest hm => by cases hm⟩
      · exact h.paused id' (Finset.mem_of_mem_erase hid') (by simp [hidle]) (by simp [hidle])
      · cases hm
        exact ⟨Finset.notMem_erase _ _, hu⟩
    · cases hm
      refine ⟨h.workers, h.generations, fun id' hid' hd _ => ?_, fun id' hm => (by cases hm),
        fun id' hm => (by cases hm), fun rest hm => by cases hm⟩
      have hne : id' ≠ id := fun heq => hd (heq ▸ rfl)
      exact h.paused id' ((Finset.mem_insert.1 hid').resolve_left hne) (by simp [hidle])
        (by simp [hidle])
  | startOrMigrate id =>
    simp only [Controller.message] at hm
    split_ifs at hm with hidle
    cases hm
    split
    · exact h
    · exact h.same (fun _ => lookup_modify) rfl rfl rfl (fun _ hc => hc) (fun _ hc => hc)
        (fun _ hc => .inl hc) fun rest hc => ⟨rest, hc⟩
  | close =>
    have hclosing : (∀ id, x.main ≠ .disable id ∧ x.main ≠ .renew id) →
        Phase { x with closed := true, main := .closing (x.sessions.map (·.2)) } := fun hother =>
      h.same (fun _ ht => ht) rfl rfl rfl
        (fun id hc => absurd hc (not_or.2 ⟨(hother id).1, (hother id).2⟩))
        (fun _ hc => by cases hc) (fun _ hc => by cases hc) fun _ hc => by cases hc
    simp only [Controller.message] at hm
    split at hm
    · rename_i hidle
      split_ifs at hm <;> cases hm
      · exact h
      · exact hclosing fun id => by simp [hidle]
    · rename_i hinit
      cases hm
      exact hclosing fun id => by simp [hinit]
    · cases hm

theorem Phase.mainStep (h : Phase x) (hm : x.mainStep = some (c, x')) : Phase x' := by
  unfold Controller.mainStep at hm
  -- the main thread goes on without a new generation
  have hsame : ∀ {y : Controller} {m : Main}, y = { y with main := m } →
      (∀ t, x.workers.lookup t = none → y.workers.lookup t = none) →
      y.generation = x.generation → y.generations = x.generations → y.paused = x.paused →
      (∀ id, x.main ≠ .disable id ∧ x.main ≠ .renew id) → (m = .idle ∨ ∃ rest, m = .closing rest) →
      Phase y := by
    intro y m hy hw hg hgs hp hother hm
    have hmain : y.main = m := by rw [hy]
    refine h.same hw hg hgs hp (fun id hc => absurd hc (not_or.2 ⟨(hother id).1, (hother id).2⟩))
      (fun id hc => ?_) (fun id hc => ?_) fun rest hc => ?_
    all_goals
      rw [hmain] at hc
      rcases hm with rfl | ⟨_, rfl⟩ <;> cases hc
  split at hm
  · cases hm
  · rename_i hmain
    cases hm
    exact hsame rfl (fun _ ht => ht) rfl rfl rfl (fun id => by simp [hmain]) (.inl rfl)
  · rename_i id rest hmain
    cases hm
    have hempty := h.init _ hmain
    exact h.started (by rw [hempty]; exact Finset.notMem_empty id) (.inr ⟨rest, rfl, hempty⟩)
      fun id => by simp [hmain]
  · rename_i id hmain
    cases hm
    refine h.same (fun _ ht => ht) rfl rfl rfl (fun id' hc => ?_) (fun _ hc => by cases hc)
      (fun id' hc => ?_) fun _ hc => by cases hc
    · rw [hmain] at hc
      rcases hc with hc | hc <;> cases hc
    · cases hc
      exact .inr hmain
  · rename_i id hmain
    cases hm
    exact h.started (h.start id hmain) (.inl rfl) fun id => by simp [hmain]
  · rename_i id hmain
    cases hm
    refine h.same (fun _ ht => ht) rfl rfl rfl (fun id' hc => ?_) (fun _ hc => by cases hc)
      (fun _ hc => by cases hc) fun _ hc => by cases hc
    rw [hmain] at hc
    rcases hc with hc | hc <;> cases hc
    exact .inr rfl
  · rename_i id hmain
    cases hm
    exact h.renewed hmain
  · rename_i id hmain
    cases hm
    have hother : ∀ id, x.main ≠ .disable id ∧ x.main ≠ .renew id := fun id => by simp [hmain]
    unfold Controller.closeSession
    split
    · exact hsame rfl (fun _ ht => ht) rfl rfl rfl hother (.inl rfl)
    · refine hsame rfl (fun t ht => ?_) rfl rfl rfl hother (.inl rfl)
      exact lookup_modify (x := { x with sessions := _ }) ht
  · rename_i hmain
    cases hm
    exact hsame rfl (fun _ ht => ht) rfl rfl rfl (fun id => by simp [hmain]) (.inl rfl)
  · rename_i hmain
    cases hm
    exact hsame rfl (fun _ => lookup_modify) rfl rfl rfl (fun id => by simp [hmain]) (.inr ⟨_, rfl⟩)

/-! ### The gateway of the current session -/

/-- Some profiles get a new generation from `x` to `x'`; those that are not resumed, and
    take gateways, are left alone. -/
structure Renews (x x' : Controller) : Prop where
  generations : ∀ id t, x'.generations.lookup id = some t → x.generations.lookup id = some t ∨
    x.generation < t ∧ ∀ s, x'.workers.lookup t = some s → s.id = id
  router : ∀ id, x'.router.Enabled id → Unowned id x' ∨ x.router.Enabled id ∧
    x'.router.profiles.lookup id = x.router.profiles.lookup id

theorem renews_of_same (hgenerations : x'.generations = x.generations)
    (hrouter : x'.router = x.router) : Renews x x' :=
  ⟨fun id t ht => .inl (hgenerations ▸ ht), fun id hid => .inr (by rw [← hrouter]; exact ⟨hid, rfl⟩)⟩

theorem message_renews {m : Message} (h : x.message p.profiles m = some x') : Renews x x' := by
  refine renews_of_same ?_ (message_router h)
  cases m with
  | toggle id =>
    simp only [message] at h
    split_ifs at h <;> cases h <;> rfl
  | startOrMigrate id =>
    simp only [message] at h
    split_ifs at h
    cases h
    split <;> rfl
  | close =>
    simp only [message] at h
    split at h
    · split_ifs at h <;> cases h <;> rfl
    · cases h
      rfl
    · cases h

theorem renews_start (id : Bytes) (m : Main) : Renews x { x.start id with main := m } := by
  refine ⟨fun id' t ht => ?_, fun id' hid' => .inr ⟨hid', rfl⟩⟩
  change (x.generations.insert id (x.generation + 1)).lookup id' = some t at ht
  rw [Map.lookup_insert'] at ht
  split_ifs at ht with heq
  · cases ht
    refine .inr ⟨Nat.lt_succ_self _, fun s hs => ?_⟩
    change (x.workers.insert (x.generation + 1) { id := id }).lookup (x.generation + 1) = some s at hs
    rw [Map.lookup_insert', if_pos rfl] at hs
    cases hs
    exact heq.symm
  · exact .inl ht

theorem mainStep_renews (hphase : Phase x) (h : x.mainStep = some (c, x')) : Renews x x' := by
  unfold mainStep at h
  split at h
  · cases h
  · cases h
    exact renews_of_same rfl rfl
  · cases h
    exact renews_start _ _
  · rename_i id hmain
    cases h
    refine ⟨fun id t ht => .inl ht, fun id' hid' => ?_⟩
    rcases MultiRouter.enabled_of_setProfileEnabled _ _ hid' with ⟨rfl, -⟩ | hsame
    · exact .inl (hphase.enable id' hmain).2
    · exact .inr hsame
  · cases h
    exact renews_start _ _
  · cases h
    refine ⟨fun id t ht => .inl ht, fun id' hid' => ?_⟩
    rcases MultiRouter.enabled_of_setProfileEnabled _ _ hid' with ⟨-, hc⟩ | hsame
    · cases hc
    · exact .inr hsame
  · rename_i id hmain
    cases h
    refine ⟨fun id' t ht => ?_, fun id' hid' => .inr ⟨hid', rfl⟩⟩
    change (x.generations.insert id (x.generation + 1)).lookup id' = some t at ht
    rw [Map.lookup_insert'] at ht
    split_ifs at ht with heq
    · cases ht
      refine .inr ⟨Nat.lt_succ_self _, fun s hs => ?_⟩
      exact absurd (hphase.workers _ s hs) (by omega)
    · exact .inl ht
  · cases h
    unfold closeSession
    split
    · exact renews_of_same rfl rfl
    · exact renews_of_same rfl rfl
  · cases h
    exact renews_of_same rfl rfl
  · cases h
    exact renews_of_same rfl rfl

/-- The gateway that a current session has set, and still holds, is in the router. -/
structure Current (as : List Step) (x : Controller) : Prop where
  phase : Phase x
  owner : ∀ id t s, x.generations.lookup id = some t → x.workers.lookup t = some s → s.id = id
  held : ∀ t ok id g, (.worker t ok, some (.setGateway id (some g), none)) ∈ as →
    ∃ s, x.workers.lookup t = some s ∧ (s.Holds g ∨
      ∃ ok' id', (.worker t ok', some (.detachGateway id' (some g), none)) ∈ as)
  routed : ∀ id t s ok g, x.generations.lookup id = some t → x.workers.lookup t = some s →
    (.worker t ok, some (.setGateway id (some g), none)) ∈ as → s.Holds g →
    x.router.Enabled id → ∃ h, x.router.profiles.lookup id = some h ∧ h.g = g

theorem Current.init : Current [] p.initial := by
  have hnone : ∀ t s, (∅ : Map ℕ VpnSession).lookup t ≠ some s := by
    intro t s hs
    rw [Finmap.lookup_empty] at hs
    cases hs
  have hnone' : ∀ id t, (∅ : Map Bytes ℕ).lookup id ≠ some t := by
    intro id t ht
    rw [Finmap.lookup_empty] at ht
    cases ht
  exact ⟨⟨fun t s hs => absurd hs (hnone t s), fun id t ht => absurd ht (hnone' id t),
    fun id hid => absurd hid (Finset.notMem_empty id), fun id hm => (by cases hm),
    fun id hm => (by cases hm), fun _ _ => rfl⟩, fun id t s ht => absurd ht (hnone' id t),
    fun _ _ _ _ hmem => (by cases hmem), fun id t _ _ _ ht => absurd ht (hnone' id t)⟩

theorem Current.quiet (h : Current as x) (hq : Quiet x x') (hphase : Phase x') (hr : Renews x x')
    {a : Act} (ha : ∀ t ok, a ≠ .worker t ok) : Current (as ++ [(a, c)]) x' := by
  have hold : ∀ {t ok call}, (.worker t ok, some call) ∈ as ++ [(a, c)] →
      (.worker t ok, some call) ∈ as := by
    intro t ok call hmem
    rcases mem_snoc.1 hmem with hold | hnew
    · exact hold
    · cases hnew
      exact absurd rfl (ha t ok)
  refine ⟨hphase, fun id t s' ht hs' => ?_, fun t ok id g hmem => ?_,
    fun id t s' ok g ht hs' hmem hg hen => ?_⟩
  · rcases hr.generations id t ht with hsame | ⟨-, hnew⟩
    · rcases hq.old t s' hs' with ⟨s, hs, hsame'⟩ | ⟨htoken, -, -⟩
      · exact hsame'.id.trans (h.owner id t s hsame hs)
      · exact absurd (h.phase.generations id t hsame) (by omega)
    · exact hnew s' hs'
  · obtain ⟨s, hs, hheld⟩ := h.held t ok id g (hold hmem)
    obtain ⟨s', hs', hsame⟩ := hq.kept t s (h.phase.workers t s hs) hs
    exact ⟨s', hs', hheld.imp (hsame.holds_iff g).2 fun ⟨ok', id', hmem'⟩ =>
      ⟨ok', id', List.mem_append_left _ hmem'⟩⟩
  · obtain ⟨s, hs, -⟩ := h.held t ok id g (hold hmem)
    have htoken := h.phase.workers t s hs
    have ht' : x.generations.lookup id = some t := by
      rcases hr.generations id t ht with hsame | ⟨hlt, -⟩
      · exact hsame
      · omega
    rcases hr.router id hen with hu | ⟨hen', hlook⟩
    · rw [hu t ht] at hs'
      cases hs'
    · rw [hlook]
      obtain ⟨s₁, hs₁, hsame⟩ := hq.kept t s htoken hs
      obtain rfl : s₁ = s' := Option.some.inj (hs₁.symm.trans hs')
      exact h.routed id t s ok g ht' hs (hold hmem) ((hsame.holds_iff g).1 hg) hen'

section Worker

variable {t : ℕ} {ok current : Bool} {s s' : VpnSession} {router' : MultiRouter Gateway}

/-- What a session has set before this step, and holds after it, it held before it. -/
theorem holds_before (hinv : Inv as x) (hs : x.workers.lookup t = some s)
    (hstep : s.step t ok current x.router = some (c, router', s')) {b : Act} {id : Bytes}
    {g : Gateway} {e : Option Error} (hmem : (b, some (.setGateway id (some g), e)) ∈ as)
    (hg : s'.Holds g) : s.Holds g := by
  rcases VpnSession.holds_of_step hstep hg with hg | rfl
  · exact hg
  · obtain ⟨t', _, s₀, n, -, hs₀, heq, hn⟩ := hinv.called b id _ e (.inr hmem)
    cases heq
    obtain rfl : s₀ = s := Option.some.inj (hs₀.symm.trans hs)
    exact absurd hn (lt_irrefl _)

/-- The gateway of a current session stays in the router when another worker moves. -/
theorem routed_other (hinv : Inv as x) (hs : x.workers.lookup t = some s)
    (hstep : s.step t ok current x.router = some (c, router', s'))
    (htime : ∀ g, s.pc = .set g → x.generations.lookup s.id = some t) {id : Bytes} {t' : ℕ}
    {hd : TunHandler Gateway} (hne : t' ≠ t) (hid : x.generations.lookup id = some t')
    (hmade : ∃ n, hd.g = .made t' n) (hen : router'.Enabled id) :
    x.router.Enabled id ∧
      (x.router.profiles.lookup id = some hd → router'.profiles.lookup id = some hd) := by
  have hwf := hinv.wf t s hs
  have hcalled := VpnSession.step_router hstep
  cases c with
  | none =>
    rw [show router' = x.router from hcalled] at hen ⊢
    exact ⟨hen, fun hl => hl⟩
  | some call =>
    obtain ⟨g, hg, ⟨rfl, -⟩ | ⟨e, rfl, hpc, -⟩⟩ := VpnSession.step_call hwf hstep
    · obtain rfl : x.router.detachGateway s.id (some g) = router' := congrArg Prod.snd hcalled
      obtain ⟨hclosed, hdisabled⟩ := x.router.detachGateway_frame s.id g
      rw [MultiRouter.Enabled, hclosed, hdisabled] at hen
      refine ⟨hen, fun hl => ?_⟩
      obtain ⟨n, -, rfl⟩ := hwf.client g hg.1
      obtain ⟨n', hn'⟩ := hmade
      have hdiffer : hd.g ≠ .made t n := by
        rw [hn']
        exact fun hc => by cases hc; exact hne rfl
      by_cases hdirect : s.id = Routing.direct
      · rwa [MultiRouter.detachGateway, MultiRouter.removeGatewayOf, if_pos hdirect]
      · rw [MultiRouter.lookup_detachGateway _ _ _ hdirect, hl]
        split_ifs
        · simp [Option.filter, hdiffer]
        · rfl
    · obtain rfl : (x.router.setGateway s.id (some g)).2 = router' := congrArg Prod.snd hcalled
      rcases x.router.setGateway_cases s.id g with
        ⟨_, he⟩ | ⟨-, -, -, hprofiles, hclosed, hdisabled⟩
      · rw [he] at hen ⊢
        exact ⟨hen, fun hl => hl⟩
      · rw [MultiRouter.Enabled, hclosed, hdisabled] at hen
        refine ⟨hen, fun hl => ?_⟩
        -- the session that sets its gateway is the current one of another profile
        have hother : id ≠ s.id := by
          rintro rfl
          exact hne (Option.some.inj (hid.symm.trans (htime g hpc)))
        rw [hprofiles, Map.lookup_insert', if_neg hother, hl]

/-- The gateway of a current session stays in the router when its own worker moves. -/
theorem routed_own (hinv : Inv as x) (h : Current as x) (hs : x.workers.lookup t = some s)
    (hstep : s.step t ok current x.router = some (c, router', s')) {id : Bytes} {ok' : Bool}
    {g : Gateway} (hid : x.generations.lookup id = some t)
    (hmem : (.worker t ok', some (.setGateway id (some g), none)) ∈ as ++ [(.worker t ok, c)])
    (hg : s'.Holds g) (hen : router'.Enabled id) :
    ∃ hd, router'.profiles.lookup id = some hd ∧ hd.g = g := by
  have hwf := hinv.wf t s hs
  have hcalled := VpnSession.step_router hstep
  have hsid : s.id = id := h.owner id t s hid hs
  -- the gateway was there, if the router is as it was
  have hsame : router' = x.router → (.worker t ok', some (.setGateway id (some g), none)) ∈ as →
      ∃ hd, router'.profiles.lookup id = some hd ∧ hd.g = g := by
    rintro rfl hold
    exact h.routed id t s ok' g hid hs hold (holds_before hinv hs hstep hold hg) hen
  cases c with
  | none =>
    refine hsame hcalled ((mem_snoc.1 hmem).resolve_right fun hnew => ?_)
    cases hnew
  | some call =>
    obtain ⟨g', hg', ⟨rfl, hnot⟩ | ⟨e, rfl, -, hg''⟩⟩ := VpnSession.step_call hwf hstep
    · rcases mem_snoc.1 hmem with hold | hnew
      · have hheld := holds_before hinv hs hstep hold hg
        cases hheld.1.symm.trans hg'.1
        exact absurd hg hnot
      · cases hnew
    · cases hg.1.symm.trans hg''.1
      obtain rfl : (x.router.setGateway s.id (some g)).2 = router' := congrArg Prod.snd hcalled
      rcases x.router.setGateway_cases s.id g with ⟨e', he⟩ | ⟨-, -, -, hprofiles, -⟩
      · refine hsame (by rw [he]) ((mem_snoc.1 hmem).resolve_right fun hnew => ?_)
        cases hnew
        cases (congrArg Prod.fst hcalled).symm.trans (congrArg Prod.fst he)
      · exact ⟨_, by rw [hprofiles, Map.lookup_insert', if_pos hsid.symm], rfl⟩

theorem Current.worker (hinv : Inv as x) (h : Current as x) (hs : x.workers.lookup t = some s)
    (hstep : s.step t ok current x.router = some (c, router', s'))
    (htime : ∀ g, s.pc = .set g → x.generations.lookup s.id = some t) :
    Current (as ++ [(.worker t ok, c)])
      { x with router := router', workers := x.workers.insert t s' } := by
  have hlook : ∀ t', (x.workers.insert t s').lookup t' = if t' = t then some s' else x.workers.lookup t' :=
    fun t' => Map.lookup_insert' _ _ _ _
  obtain ⟨hid, -⟩ := VpnSession.step_frame hstep
  have hwf := hinv.wf t s hs
  refine ⟨?_, fun id t' s'' ht' hs'' => ?_, fun t' ok' id g hmem => ?_,
    fun id t' s'' ok' g ht' hs'' hmem hg hen => ?_⟩
  · refine h.phase.same (fun t' hnone => ?_) rfl rfl rfl (fun _ hc => hc) (fun _ hc => hc)
      (fun _ hc => .inl hc) fun rest hc => ⟨rest, hc⟩
    have hne : t' ≠ t := by
      rintro rfl
      rw [hs] at hnone
      cases hnone
    exact (hlook t').trans ((if_neg hne).trans hnone)
  · rw [hlook] at hs''
    split_ifs at hs'' with heq
    · cases hs''
      exact hid.trans (h.owner id t s (heq ▸ ht') hs)
    · exact h.owner id t' s'' ht' hs''
  · rcases mem_snoc.1 hmem with hold | hnew
    · obtain ⟨s₀, hs₀, hheld⟩ := h.held t' ok' id g hold
      by_cases heq : t' = t
      · subst heq
        obtain rfl : s₀ = s := Option.some.inj (hs₀.symm.trans hs)
        refine ⟨s', by rw [hlook, if_pos rfl], ?_⟩
        rcases hheld with hheld | ⟨ok₁, id₁, hdet⟩
        · rcases hheld.step hwf hstep with hheld | rfl
          · exact .inl hheld
          · exact .inr ⟨ok, s₀.id, List.mem_append_right _ (List.mem_singleton.2 rfl)⟩
        · exact .inr ⟨ok₁, id₁, List.mem_append_left _ hdet⟩
      · refine ⟨s₀, by rw [hlook, if_neg heq, hs₀], hheld.imp_right fun ⟨ok₁, id₁, hdet⟩ => ?_⟩
        exact ⟨ok₁, id₁, List.mem_append_left _ hdet⟩
    · cases hnew
      obtain ⟨g', -, ⟨heq, -⟩ | ⟨e, heq, -, hg'⟩⟩ := VpnSession.step_call hwf hstep
      · cases heq
      · cases heq
        exact ⟨s', by rw [hlook, if_pos rfl], .inl hg'⟩
  · rw [hlook] at hs''
    split_ifs at hs'' with heq
    · cases hs''
      subst heq
      exact routed_own hinv h hs hstep ht' hmem hg hen
    · have hold : (.worker t' ok', some (.setGateway id (some g), none)) ∈ as := by
        refine (mem_snoc.1 hmem).resolve_right fun hnew => heq ?_
        cases hnew
        rfl
      obtain ⟨n, -, hn⟩ := (hinv.wf t' s'' hs'').client g hg.1
      have hmade : ∀ hd : TunHandler Gateway, hd.g = g → ∃ n, hd.g = .made t' n := fun _ hd =>
        ⟨n, hd.trans hn⟩
      obtain ⟨hen', -⟩ :=
        routed_other hinv hs hstep htime heq ht' (hmade ⟨g, 0⟩ rfl) hen
      obtain ⟨hd, hl, hhd⟩ := h.routed id t' s'' ok' g ht' hs'' hold hg hen'
      exact ⟨hd, (routed_other hinv hs hstep htime heq ht' (hmade hd hhd) hen).2 hl, hhd⟩

end Worker

theorem Current.step (hinv : Inv as x) (h : Current as x) {b : Step}
    (hs : (p.system.restrict OnTime).step x b x') : Current (as ++ [b]) x' := by
  obtain ⟨a, c⟩ := b
  obtain ⟨htime, hnext⟩ := hs
  rcases next_cases hnext with ⟨t, ok, s, s', current, rfl, hs, -, hstep, hx'⟩ | ⟨ha, hquiet, -⟩
  · rw [hx']
    exact Current.worker hinv h hs hstep fun g hg => htime s g hs hg
  · suffices hphase : Phase x' ∧ Renews x x' from h.quiet hquiet hphase.1 hphase.2 ha
    cases a with
    | message m =>
      obtain ⟨y, hy, he⟩ := Option.map_eq_some_iff.1 hnext
      cases he
      exact ⟨h.phase.message hy, message_renews hy⟩
    | main => exact ⟨h.phase.mainStep hnext, mainStep_renews h.phase hnext⟩
    | worker t ok => exact absurd rfl (ha t ok)
    | closeRouter =>
      change (if x.closer then _ else _) = _ at hnext
      split_ifs at hnext
      cases hnext
      refine ⟨h.phase.same (fun _ ht => ht) rfl rfl rfl (fun _ hc => hc) (fun _ hc => hc)
        (fun _ hc => .inl hc) fun rest hc => ⟨rest, hc⟩, fun id t ht => .inl ht, fun id hen => ?_⟩
      -- a closed router takes no gateways
      have hclosed : x.router.close.closed = true := by
        unfold MultiRouter.close
        split_ifs with hc
        · exact hc
        · rfl
      rw [MultiRouter.Enabled, hclosed] at hen
      cases hen.1

theorem current_of_run (h : (p.system.restrict OnTime).Run as x) : Current as x := by
  induction h with
  | init hx =>
    cases hx
    exact .init
  | step hrun hs ih => exact ih.step (inv_of_run hrun.of_restrict) hs

end Controller

open Controller in
/-- A live session is the one the router uses, if gateways are set on time: when the
    current session of a profile has set a gateway, and has not detached it since, then
    that is the gateway of the profile, as long as the router takes gateways for it. -/
theorem live_session_routed {p : MultipleVpnPlan} {as : List Step} {x : Controller}
    (h : (p.system.restrict OnTime).Run as x) {id : Bytes} {t : ℕ} {ok : Bool} {g : Gateway}
    (hcurrent : x.generations.lookup id = some t)
    (hset : (.worker t ok, some (.setGateway id (some g), none)) ∈ as)
    (hlive : ∀ ok' id', (.worker t ok', some (.detachGateway id' (some g), none)) ∉ as)
    (henabled : x.router.closed = false ∧ x.router.disabled.lookup id ≠ some true) :
    (x.router.profiles.lookup id).map (·.g) = some g := by
  have hcur := current_of_run h
  obtain ⟨s, hs, hheld | ⟨ok', id', hmem⟩⟩ := hcur.held t ok id g hset
  · obtain ⟨hd, hl, hg⟩ := hcur.routed id t s ok g hcurrent hs hset hheld henabled
    rw [hl, Option.map_some, hg]
  · exact absurd hmem (hlive ok' id')

namespace Controller

/-- `OnTime`, to be evaluated. -/
def isOnTime (x : Controller) : Act → Bool
  | .worker t _ =>
    match x.workers.lookup t with
    | none => true
    | some s =>
      match s.pc with
      | .set _ => x.generations.lookup s.id = some t
      | _ => true
  | _ => true

theorem onTime_of_isOnTime {x : Controller} {a : Act} (h : x.isOnTime a) (c : Option RouterCall) :
    OnTime x (a, c) := by
  cases a with
  | worker t ok =>
    intro s g hs hpc
    simp only [isOnTime, hs, hpc] at h
    exact of_decide_eq_true h
  | _ => trivial

/-- Are all gateways set on time? -/
def onTime (plan : List Bytes) : List Act → Controller → Bool
  | [], _ => true
  | a :: acts, x =>
    x.isOnTime a && match x.next plan a with
      | none => true
      | some (_, x') => onTime plan acts x'

theorem run_of_onTime {p : MultipleVpnPlan} {acts : List Act} {as bs : List Step}
    {x y : Controller} (hrun : (p.system.restrict OnTime).Run as x)
    (h : perform p.profiles acts x = some (bs, y)) (htime : onTime p.profiles acts x) :
    (p.system.restrict OnTime).Run (as ++ bs) y := by
  induction acts generalizing as bs x with
  | nil =>
    cases h
    rwa [List.append_nil]
  | cons a acts ih =>
    simp only [perform] at h
    split at h
    · cases h
    · rename_i c x' hnext
      obtain ⟨⟨bs', y'⟩, hrest, he⟩ := Option.map_eq_some_iff.1 h
      cases he
      simp only [onTime, hnext] at htime
      obtain ⟨ha, hacts⟩ := Bool.and_eq_true_iff.1 htime
      have hstep : (p.system.restrict OnTime).step x (a, c) x' := ⟨onTime_of_isOnTime ha c, hnext⟩
      have hall := ih (hrun.step hstep) hrest hacts
      rwa [List.append_assoc, List.singleton_append] at hall

/-- Does the step detach the gateway? -/
def detaches (g : Gateway) : Step → Bool
  | (_, some (.detachGateway _ g', _)) => g' = some g
  | _ => false

theorem notMem_of_detaches {as : List Step} {g : Gateway} (h : as.all fun a => ! detaches g a)
    (a : Act) (id : Bytes) (e : Option Error) : (a, some (.detachGateway id (some g), e)) ∉ as := by
  intro hmem
  have hnot := List.all_eq_true.1 h _ hmem
  simp [detaches] at hnot

end Controller

namespace Sample

/-- The profile is resumed, and its new session is told to start. -/
def resumed : List Controller.Act :=
  [.message (.toggle (str "home")), .main, .main, .message (.startOrMigrate (str "home"))]

theorem routed_isSome : (Controller.perform plan.profiles
    (begun 5 ++ paused ++ resumed ++ steps 3 5) plan.initial).isSome := by
  decide +kernel

/-- The first session has set its gateway when the profile is paused; the second one
    sets its own after the profile is resumed. -/
def routed : List Controller.Step × Controller :=
  (Controller.perform plan.profiles (begun 5 ++ paused ++ resumed ++ steps 3 5) plan.initial).get
    routed_isSome

theorem routed_run : (plan.system.restrict OnTime).Run routed.1 routed.2 :=
  Controller.run_of_onTime (.init rfl) (Option.some_get routed_isSome).symm (by decide +kernel)

end Sample

/-- The gateway of the second session is used. -/
theorem live_session_routed_sample :
    (Sample.routed.2.router.profiles.lookup (str "home")).map (·.g) = some (.made 3 0) := by
  have hset : Sample.routed.1[20]? =
      some (.worker 3 true, some (.setGateway (str "home") (some (.made 3 0)), none)) := rfl
  have hlive : Sample.routed.1.all fun a => ! Controller.detaches (.made 3 0) a := by decide +kernel
  exact live_session_routed Sample.routed_run (by decide +kernel) (List.mem_of_getElem? hset)
    (fun ok' id' => Controller.notMem_of_detaches hlive _ id' none) (by decide +kernel)

namespace Sample

theorem replaced_isSome : (Controller.perform plan.profiles
    (begun 4 ++ paused ++ resumed ++ steps 3 5 ++ steps 1 1) plan.initial).isSome := by
  decide +kernel

/-- The first session is about to set its gateway when the profile is paused and
    resumed; it does so after the second session has set its own. -/
def replaced : List Controller.Step × Controller :=
  (Controller.perform plan.profiles
    (begun 4 ++ paused ++ resumed ++ steps 3 5 ++ steps 1 1) plan.initial).get replaced_isSome

theorem replaced_run : plan.system.Run replaced.1 replaced.2 :=
  Controller.run_of_perform (.init rfl) (Option.some_get replaced_isSome).symm

end Sample

/-- The second session is current, has set its gateway and is alive, but the router uses
    the gateway of the first one. -/
theorem live_session_replaced :
    Sample.plan.system.Run Sample.replaced.1 Sample.replaced.2 ∧
    Sample.replaced.2.generations.lookup (str "home") = some 3 ∧
    (.worker 3 true, some (.setGateway (str "home") (some (.made 3 0)), none)) ∈ Sample.replaced.1 ∧
    (∀ ok' id', (.worker 3 ok', some (.detachGateway id' (some (.made 3 0)), none)) ∉
      Sample.replaced.1) ∧
    (Sample.replaced.2.workers.lookup 3).map (fun s => (s.alive, s.client)) =
      some (true, some (.made 3 0)) ∧
    (Sample.replaced.2.router.closed = false ∧
      Sample.replaced.2.router.disabled.lookup (str "home") ≠ some true) ∧
    (Sample.replaced.2.router.profiles.lookup (str "home")).map (·.g) = some (.made 1 0) := by
  have hset : Sample.replaced.1[19]? =
      some (.worker 3 true, some (.setGateway (str "home") (some (.made 3 0)), none)) := rfl
  have hlive : Sample.replaced.1.all fun a => ! Controller.detaches (.made 3 0) a := by
    decide +kernel
  exact ⟨Sample.replaced_run, by decide +kernel, List.mem_of_getElem? hset,
    fun ok' id' => Controller.notMem_of_detaches hlive _ id' none, by decide +kernel,
    by decide +kernel, by decide +kernel⟩

end QuicLab.Android
