import QuicLab.Admin.Web

/-!
# Schedules of the web interface

A schedule says which thread moves next, and with which random values. It can be
run, and what comes of it is a run of the web interface (`run_of_schedule`).

`Sample` is a small server, with one user, on which the schedules are run.
-/

namespace QuicLab.Admin.Web

open Go

instance (n : ℕ) (b : Bytes) (drawn : List Bytes) : Decidable (Fresh n b drawn) :=
  inferInstanceAs (Decidable (_ ∧ _))

/-- An operation, if it can be taken, with the random values given. The store is not
    changed in a schedule. -/
def perform (w : Setup) (i : ℕ) (random : List Bytes) :
    (e : Op) → Web → Option (Result e × Web)
  | .lock, s =>
    if s.userCaptureMu = none then some ((), { s with userCaptureMu := some i }) else none
  | .unlock, s => some ((), { s with userCaptureMu := none })
  | .time, s => some (s.now, s)
  | .getSession cookie, s =>
    some ((s.tables.getSession cookie s.now).1,
      { s with tables := (s.tables.getSession cookie s.now).2 })
  | .limit, s => some ((s.tables.limit s.now).1, { s with tables := (s.tables.limit s.now).2 })
  | .newSession err, s =>
    match random with
    | [token, csrf] =>
      if Fresh 48 token s.drawn ∧ Fresh 48 csrf (token :: s.drawn) then
        some ((s.tables.newSession w.credential err token csrf s.now).1,
          { s with
            tables := (s.tables.newSession w.credential err token csrf s.now).2
            drawn := csrf :: token :: s.drawn })
      else none
    | _ => none
  | .removeSession cookie err, s =>
    some ((s.tables.removeSession w.credential err cookie).1,
      { s with tables := (s.tables.removeSession w.credential err cookie).2 })
  | .issueTicket user, s =>
    match random with
    | [token] =>
      if Fresh 48 token s.drawn then
        some ((token, s.now),
          { s with tables := s.tables.issueTicket user token s.now, drawn := token :: s.drawn })
      else none
    | _ => none
  | .takeTicket token, s =>
    some ((s.tables.takeTicket token s.now).1,
      { s with tables := (s.tables.takeTicket token s.now).2 })
  | .dropTickets user, s => some ((), { s with tables := s.tables.dropTickets user })
  | .profile id, s => some (s.store.profile id s.now, s)
  | .awgProfile id, s => some (s.store.awgProfile id s.now, s)
  | .find id, s => some (s.store.find id, s)
  | .store _, _ => none
  | .capture c, s =>
    match random with
    | [b] =>
      if Fresh 64 b s.drawn then
        some ((s.capture.apply c s.now b).1,
          { s with capture := (s.capture.apply c s.now b).2, drawn := b :: s.drawn })
      else none
    | _ => none
  | .getCapture id owner, s => some ((s.capture.get id owner s.now).isSome, s)
  | .userCapture user, s =>
    -- a schedule asks for the capture of a user only when there is none
    if s.capture.sessions.Any fun _ c =>
        c.retained ∧ c.user = user ∧ c.kind = str "user" ∧ c.state = .running then none
    else some (none, s)
  | .reply _, s => some ((), s)

variable {w : Setup} {i : ℕ} {random : List Bytes}

theorem exec_of_perform {e : Op} {s s' : Web} {r : Result e}
    (h : perform w i random e s = some (r, s')) : exec w i e s r s' := by
  cases e with
  | lock =>
    simp only [perform] at h
    split_ifs at h with hfree
    cases h
    exact ⟨hfree, rfl⟩
  | newSession err =>
    simp only [perform] at h
    split at h
    · rename_i token csrf
      split_ifs at h with hfresh
      cases h
      exact ⟨token, csrf, hfresh.1, hfresh.2, rfl, rfl⟩
    · cases h
  | issueTicket user =>
    simp only [perform] at h
    split at h
    · split_ifs at h with hfresh
      cases h
      exact ⟨hfresh, rfl, rfl⟩
    · cases h
  | store c => cases h
  | capture c =>
    simp only [perform] at h
    split at h
    · rename_i b
      split_ifs at h with hfresh
      cases h
      exact ⟨b, hfresh, rfl, rfl⟩
    · cases h
  | userCapture user =>
    simp only [perform] at h
    split_ifs at h with hany
    cases h
    refine ⟨fun id ⟨c, hc, huser, hkind, hrun⟩ => hany ?_, rfl⟩
    obtain ⟨hlook, hretained⟩ := Option.filter_eq_some_iff.1 hc
    exact Map.any_iff.2 ⟨id, c, hlook, hretained, huser, hkind, hrun⟩
  | unlock =>
    cases h
    rfl
  | dropTickets user =>
    cases h
    rfl
  | reply _ =>
    cases h
    rfl
  | _ =>
    cases h
    exact ⟨rfl, rfl⟩

/-- A move of a schedule: a request comes, a thread takes an operation, or time
    passes. -/
inductive Move
  | spawn (i : ℕ) (q : Query)
  | op (i : ℕ) (random : List Bytes)
  | tick (t : Time)

/-- What comes of a move, if it can be made. -/
def move (w : Setup) (x : Pool Web Op Result) : Move → Option (Step × Pool Web Op Result)
  | .spawn i q =>
    match x.threads i with
    | none => some (.spawn i q, ⟨x.shared, Function.update x.threads i (some (handler w q))⟩)
    | some _ => none
  | .op i random =>
    match x.threads i with
    | some (.op e k) =>
      match perform w i random e x.shared with
      | some (r, s') => some (.op i e r, ⟨s', Function.update x.threads i (some (k r))⟩)
      | none => none
    | _ => none
  | .tick t =>
    if x.shared.now ≤ t then some (.env (.tick t), ⟨{ x.shared with now := t }, x.threads⟩) else none

theorem step_of_move {x x' : Pool Web Op Result} {m : Move} {a : Step}
    (h : move w x m = some (a, x')) : (machine w).system.step x a x' := by
  cases m with
  | spawn i q =>
    simp only [move] at h
    split at h
    · cases h
      exact .spawn (by assumption)
    · cases h
  | op i random =>
    simp only [move] at h
    split at h
    · rename_i hthread
      split at h
      · rename_i hperform
        cases h
        exact .op hthread (exec_of_perform hperform)
      · cases h
    · cases h
  | tick t =>
    simp only [move] at h
    split_ifs at h with ht
    cases h
    exact .env ⟨ht, rfl⟩

/-- What comes of a schedule: the steps, and the state reached. -/
def schedule (w : Setup) : List Move → Pool Web Op Result →
    Option (List Step × Pool Web Op Result)
  | [], x => some ([], x)
  | m :: ms, x =>
    match move w x m with
    | none => none
    | some (a, x') => (schedule w ms x').map fun y => (a :: y.1, y.2)

/-- What comes of a schedule is a run of every system that makes its moves, as long as they
    are `P`. -/
theorem run_of_moves {m : System (Pool Web Op Result) Step}
    {P : List Move → Pool Web Op Result → Prop}
    (hmove : ∀ {c ms x a x'}, P (c :: ms) x → move w x c = some (a, x') → m.step x a x' ∧ P ms x')
    {ms : List Move} {as bs : List Step} {x y : Pool Web Op Result} (hP : P ms x) (hrun : m.Run as x)
    (h : schedule w ms x = some (bs, y)) : m.Run (as ++ bs) y := by
  induction ms generalizing as bs x with
  | nil =>
    cases h
    rwa [List.append_nil]
  | cons c ms ih =>
    simp only [schedule] at h
    split at h
    · cases h
    · rename_i a x' hc
      obtain ⟨⟨bs', y'⟩, hrest, he⟩ := Option.map_eq_some_iff.1 h
      cases he
      obtain ⟨hstep, hP'⟩ := hmove hP hc
      have hnext := ih hP' (hrun.step hstep) hrest
      rwa [List.append_assoc, List.singleton_append] at hnext

theorem run_of_schedule {ms : List Move} {as bs : List Step} {x y : Pool Web Op Result}
    (hrun : (machine w).system.Run as x) (h : schedule w ms x = some (bs, y)) :
    (machine w).system.Run (as ++ bs) y :=
  run_of_moves (P := fun _ _ => True) (fun _ hc => ⟨step_of_move hc, trivial⟩) trivial hrun h

/-- Do all the operations of a schedule pass a check of the states they are taken in? -/
def checked (w : Setup) (check : Op → Web → Bool) : List Move → Pool Web Op Result → Bool
  | [], _ => true
  | m :: ms, x =>
    match move w x m with
    | none => true
    | some (.op _ e _, x') => check e x.shared && checked w check ms x'
    | some (_, x') => checked w check ms x'

/-- What comes of such a schedule is a run of the guarded machine. -/
theorem run_of_checked {suits : Op → Web → Prop} {check : Op → Web → Bool}
    (hcheck : ∀ e s, check e s → suits e s) {ms : List Move} {as bs : List Step}
    {x y : Pool Web Op Result} (hrun : ((machine w).guard suits).system.Run as x)
    (h : schedule w ms x = some (bs, y)) (hchecked : checked w check ms x) :
    ((machine w).guard suits).system.Run (as ++ bs) y := by
  refine run_of_moves (P := fun ms x => checked w check ms x) (fun hchecked hc => ?_) hchecked hrun h
  simp only [checked, hc] at hchecked
  cases step_of_move hc with
  | spawn hi => exact ⟨.spawn hi, hchecked⟩
  | op hi hexec =>
    obtain ⟨he, hrest⟩ := Bool.and_eq_true_iff.1 hchecked
    exact ⟨.op hi ⟨hcheck _ _ he, hexec⟩, hrest⟩
  | env henv => exact ⟨.env henv, hchecked⟩
  | crash hcrash => exact ⟨.crash hcrash, hchecked⟩

/-! ### A small server -/

namespace Sample

/-- A profile with nothing in it. -/
def profile : Profile := ⟨[], [], [], [], 0, [], [], [], [], [], [], [], [], [], [], [], 0, []⟩

/-- The server, with captures. -/
def setup : Setup where
  config := {
    capture := some ⟨str "eth0", 0, (∅ : Map Bytes (ℤ × ℤ)).insert (str "vpn") (443, 443), 2,
      str "/tcpdump"⟩
    transit := none
    awg := none
    listen := []
    publicURL := []
    username := str "admin"
    password := str "secret"
    dataDir := []
    echo := profile
    vpn := profile }
  base := str "/"
  origin := str "https://lab"
  certs := sampleCerts
  assumptions := .fixed none

/-- The store when it is new. -/
def newStore : Store := ((Store.opened none ⟨none, 1, [], [], ∅⟩ (365 * 86400 * second)).save none).2

/-- A user is created. -/
def create : Call := .create ⟨none, none, 0, str "id", .error "", .ok [1], .ok [2], none⟩
  (str "Ann") none

/-- The store with its user. -/
def store : Store := (create.apply sampleCerts newStore).2.2

theorem store_reachable : ∃ v, (Server.system sampleCerts (.fixed none)).Reachable v ∧
    v.process = .running store := by
  have hinit : (Server.system sampleCerts (.fixed none)).Reachable Server.initial := .init rfl
  have hopen : Store.openStore ⟨none, .ok (365 * 86400 * second), [], [], none⟩ none = .ok newStore :=
    rfl
  have hassumed : create.Assumed (.fixed none) newStore :=
    ⟨rfl, fun _ _ hk => absurd hk (fun h => by cases h)⟩
  exact ⟨_, (hinit.step (.open rfl hopen)).step (.call (c := create) rfl hassumed rfl), rfl⟩

/-- The captures when they are new. -/
def captures : DebugCapture.Manager :=
  ⟨⟨str "eth0", 0, (∅ : Map Bytes (ℤ × ℤ)).insert (str "vpn") (443, 443), 2, str "/tcpdump"⟩, ∅, false⟩

/-- The server just started. -/
def start : Pool Web Op Result := ⟨⟨⟨∅, ∅, 0, 0, none⟩, store, captures, none, 1, []⟩, fun _ => none⟩

theorem started : Started setup start.shared :=
  ⟨store_reachable, ⟨none, rfl, fun _ hf => absurd hf (fun h => by cases h)⟩, rfl, rfl, by decide, rfl⟩

theorem start_run : (machine setup).system.Run [] start := .init ⟨started, rfl⟩

/-- A random value: `n` times the same digit. -/
def digits (n : ℕ) (c : UInt8) : Bytes := List.replicate n c

/-- What happens around the requests. -/
def around : Around where
  create := ⟨none, none, 0, [], .error "", .error "", .error "", none⟩
  seed := .error ""
  startup := .ready 1 1 []
  visited := fun _ => true

/-- A request with a form, under a login. -/
def request (cookie csrf : Bytes) (form : Form) : Request :=
  ⟨some cookie, str "https://lab", some { form with csrf := csrf }, around⟩

/-- A login, as the thread `i`, with the cookie and the CSRF token given. -/
def login (i : ℕ) (cookie csrf : Bytes) : List Move :=
  [.spawn i (.login ⟨none, str "https://lab",
      some { username := str "admin", password := str "secret" }, around⟩),
    .op i [], .op i [cookie, csrf], .op i []]

end Sample

end QuicLab.Admin.Web
