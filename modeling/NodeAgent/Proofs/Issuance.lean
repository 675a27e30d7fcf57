import NodeAgent.Proofs.Renewal

/-!
Whole runs of a certificate manager: its client and its files. The client is put under watch, which
changes nothing of the run and tells what was asked when. A client is asked exactly for a pair that
is missing or about to expire, and nothing but a new pair is ever written.
-/

namespace NodeAgent

/-- Thirty whole days and a part of the next one. -/
theorem Certificate.needsRenewal_iff {expiry now : Int} :
    needsRenewal expiry now = true ↔ expiry - now < 31 * 86400 := by
  have hdays : Int.tdiv (expiry - now) 86400 ≤ 30 ↔ expiry - now < 31 * 86400 := by
    rw [Int.tdiv_eq_ediv]
    split
    · omega
    next hover =>
      have hsign : Int.sign 86400 = 1 := rfl
      rw [hsign]
      omega
  exact decide_eq_true_iff.trans hdays

namespace CertManager

inductive Call
  | ensure
  /-- In seconds since 1970. -/
  | renewIfDue (now : Int)
  deriving DecidableEq, Repr

inductive Request
  | obtain
  | renew (existing : String)
  deriving DecidableEq, Repr

structure Exchange where
  request : Request
  domain : String
  answer : Except CertError CertPair

structure Watched (γ : Type) where
  client : γ

end CertManager

section Watch

open CertManager

variable {γ χ : Type}

def Host.logged (h : Host χ) (log : List Exchange) : Host (χ × List Exchange) :=
  { h with outside := (h.outside, log) }

def Host.unlogged (h : Host (χ × List Exchange)) : Host χ := { h with outside := h.outside.1 }

instance [CertClient γ χ] : CertClient (Watched γ) (χ × List Exchange) where
  obtain w domain h :=
    let (h', answer) := CertClient.obtain w.client domain h.unlogged
    (h'.logged (h.outside.2 ++ [⟨.obtain, domain, answer⟩]), answer)
  renew w domain existing h :=
    let (h', answer) := CertClient.renew w.client domain existing h.unlogged
    (h'.logged (h.outside.2 ++ [⟨.renew existing, domain, answer⟩]), answer)

end Watch

namespace CertManager

variable {γ χ : Type}

def watched (m : CertManager γ) : CertManager (Watched γ) :=
  { m with client := m.client.map Watched.mk }

theorem store_logged (m : CertManager γ) (h : Host χ) (log : List Exchange)
    (pair : Except CertError CertPair) :
    m.watched.store (h.logged log) pair = ((m.store h pair).1.logged log, (m.store h pair).2) := by
  cases pair <;> rfl

variable [CertClient γ χ]

def serve (m : CertManager γ) (h : Host χ) : Call → Host χ × Except CertError Unit
  | .ensure => m.ensure h
  | .renewIfDue now =>
    let (h, r) := m.renewIfDue now h
    (h, r.map fun _ => ())

def run (m : CertManager γ) (h : Host χ) (calls : List Call) : Host χ :=
  calls.foldl (fun h c => (m.serve h c).1) h

def dialogue (m : CertManager γ) (h : Host χ) (calls : List Call) : List Exchange :=
  (m.watched.run (h.logged []) calls).outside.2

def put (m : CertManager γ) (h : Host χ) : Request → Host χ × Except CertError CertPair
  | .obtain => m.obtain h
  | .renew existing => m.renew existing h

def exchanges (m : CertManager γ) (h : Host χ) (q : Request) : List Exchange :=
  m.client.toList.map fun _ => ⟨q, m.domain, (m.put h q).2⟩

/-- There is something to ask: a file is missing, or the certificate ends within 31 days. -/
def Wants (m : CertManager γ) (files : FileTree) : Call → Request → Prop
  | .ensure, .obtain => m.mode.isAcme = true ∧ m.pairExists files = false
  | .renewIfDue now, .renew existing =>
    m.mode.isAcme = true ∧ files.read m.paths.cert = .ok existing ∧
      ∃ expiry, Certificate.readExpiry existing = .ok expiry ∧ expiry - now < 31 * 86400
  | _, _ => False

inductive Serving (m : CertManager γ) (h : Host χ) :
    Call → List Exchange → Host χ × Except CertError Unit → Prop
  | idle {c : Call} {r : Except CertError Unit} (needless : ∀ q, ¬m.Wants h.files c q)
      (there : c = .ensure → r = .ok () → m.mode ≠ .none → m.mode ≠ .file →
        m.pairExists h.files = true) : Serving m h c [] (h, r)
  | signed {p : CertPair} (mode : m.mode = .selfSigned) (missing : m.pairExists h.files = false)
      (pair : selfSign h m.domain = .ok p) : Serving m h .ensure [] (m.store h (.ok p))
  | asked {c : Call} {q : Request} (wants : m.Wants h.files c q) :
      Serving m h c (m.exchanges h q) (m.store (m.put h q).1 (m.put h q).2)

variable (m : CertManager γ) (h : Host χ)

theorem put_logged (log : List Exchange) (q : Request) : m.watched.put (h.logged log) q =
    ((m.put h q).1.logged (log ++ m.exchanges h q), (m.put h q).2) := by
  rcases m with ⟨mode, domain, paths, _ | client⟩
  · cases q <;> simp [watched, put, obtain, renew, exchanges]
  · cases q <;> rfl

theorem store_put_logged (log : List Exchange) (q : Request) :
    m.watched.store (m.watched.put (h.logged log) q).1 (m.watched.put (h.logged log) q).2 =
      ((m.store (m.put h q).1 (m.put h q).2).1.logged (log ++ m.exchanges h q),
        (m.store (m.put h q).1 (m.put h q).2).2) := by
  rw [put_logged, store_logged]

variable {m h}

theorem ensure_of_acme (acme : m.mode.isAcme = true) : m.ensure h =
    if m.pairExists h.files then (h, .ok ())
    else m.store (m.put h .obtain).1 (m.put h .obtain).2 := by
  cases hmode : m.mode with
  | none | file | selfSigned =>
    rw [hmode] at acme
    cases acme
  | http | dns =>
    rw [ensure, hmode]
    rfl

theorem ensure_of_pairExists (there : m.pairExists h.files = true) : m.ensure h = (h, .ok ()) := by
  rw [ensure]
  cases m.mode <;> simp only [there, if_true]

omit [CertClient γ χ] in
theorem not_wants_ensure {files : FileTree}
    (other : m.mode.isAcme = false ∨ m.pairExists files = true) (q : Request) :
    ¬m.Wants files .ensure q := by
  cases q with
  | obtain =>
    rintro ⟨hacme, hmissing⟩
    rcases other with hother | hthere
    · rw [hacme] at hother
      cases hother
    · rw [hthere] at hmissing
      cases hmissing
  | renew existing => exact id

structure Served (m : CertManager γ) (h : Host χ) (c : Call) (asked : List Exchange) : Prop where
  logged : ∀ log, m.watched.serve (h.logged log) c =
    ((m.serve h c).1.logged (log ++ asked), (m.serve h c).2)
  ends : Serving m h c asked (m.serve h c)

theorem Served.of_idle {c : Call} {r : Except CertError Unit} (plain : m.serve h c = (h, r))
    (watched : ∀ log, m.watched.serve (h.logged log) c = (h.logged log, r))
    (needless : ∀ q, ¬m.Wants h.files c q)
    (there : c = .ensure → r = .ok () → m.mode ≠ .none → m.mode ≠ .file →
      m.pairExists h.files = true) : Served m h c [] where
  logged := fun log => by rw [plain, watched, List.append_nil]
  ends := by
    rw [plain]
    exact .idle needless there

theorem Served.of_asked {c : Call} {q : Request} (wants : m.Wants h.files c q)
    (plain : m.serve h c = m.store (m.put h q).1 (m.put h q).2)
    (watched : ∀ log, m.watched.serve (h.logged log) c =
      m.watched.store (m.watched.put (h.logged log) q).1 (m.watched.put (h.logged log) q).2) :
    Served m h c (m.exchanges h q) where
  logged := fun log => by rw [plain, watched, store_put_logged]
  ends := by
    rw [plain]
    exact .asked wants

theorem served_of_selfSigned (mode : m.mode = .selfSigned)
    (missing : m.pairExists h.files = false) : Served m h .ensure [] := by
  have hmissing : ¬m.pairExists h.files = true := by simp [missing]
  have hwants : ∀ q, ¬m.Wants h.files .ensure q := not_wants_ensure (.inl (by rw [mode]; rfl))
  have hplain : m.serve h .ensure = m.store h (selfSign h m.domain) := by
    rw [serve, ensure, mode]
    exact if_neg hmissing
  have hwatched : ∀ log, m.watched.serve (h.logged log) .ensure =
      m.watched.store (h.logged log) (selfSign h m.domain) := fun log => by
    rw [serve, ensure, show m.watched.mode = _ from mode]
    exact if_neg hmissing
  cases hpair : selfSign h m.domain with
  | error e =>
    rw [hpair] at hplain hwatched
    exact .of_idle hplain hwatched hwants fun _ hok => by cases hok
  | ok p =>
    rw [hpair] at hplain hwatched
    refine ⟨fun log => ?_, ?_⟩
    · rw [hplain, hwatched, store_logged, List.append_nil]
    · rw [hplain]
      exact .signed mode missing hpair

theorem served_of_acme (acme : m.mode.isAcme = true) (missing : m.pairExists h.files = false) :
    Served m h .ensure (m.exchanges h .obtain) := by
  have hmissing : ¬m.pairExists h.files = true := by simp [missing]
  exact .of_asked ⟨acme, missing⟩ ((ensure_of_acme acme).trans (if_neg hmissing))
    fun log => (ensure_of_acme (m := m.watched) (h := h.logged log) acme).trans (if_neg hmissing)

theorem served_ensure (m : CertManager γ) (h : Host χ) : ∃ asked, Served m h .ensure asked := by
  cases hthere : m.pairExists h.files with
  | true =>
    exact ⟨[], .of_idle (ensure_of_pairExists hthere)
      (fun log => ensure_of_pairExists (m := m.watched) (h := h.logged log) hthere)
      (not_wants_ensure (.inr hthere)) fun _ _ _ _ => hthere⟩
  | false =>
    cases hmode : m.mode with
    | none | file =>
      refine ⟨[], .of_idle (r := .ok ()) ?_ (fun log => ?_)
        (not_wants_ensure (.inl (by rw [hmode]; rfl)))
        fun _ _ hnone hfile => by simp [hmode] at hnone hfile⟩
      · rw [serve, ensure, hmode]
      · rw [serve, ensure, show m.watched.mode = _ from hmode]
    | selfSigned => exact ⟨[], served_of_selfSigned hmode hthere⟩
    | http | dns => exact ⟨_, served_of_acme (by rw [hmode]; rfl) hthere⟩

omit [CertClient γ χ] in
def due? (m : CertManager γ) (files : FileTree) (now : Int) : Except CertError (Option String) :=
  if !m.mode.isAcme then .ok none
  else
    match files.read m.paths.cert with
    | .error e => .error (.io m.paths.cert e)
    | .ok existing =>
      match Certificate.readExpiry existing with
      | .error e => .error e
      | .ok expiry => .ok (if Certificate.needsRenewal expiry now then some existing else none)

theorem serve_renewIfDue (m : CertManager γ) (h : Host χ) (now : Int) :
    m.serve h (.renewIfDue now) =
      match m.due? h.files now with
      | .error e => (h, .error e)
      | .ok none => (h, .ok ())
      | .ok (some existing) =>
        m.store (m.put h (.renew existing)).1 (m.put h (.renew existing)).2 := by
  rw [serve, renewIfDue, due?]
  cases m.mode.isAcme with
  | false => rfl
  | true =>
    cases h.files.read m.paths.cert with
    | error e => rfl
    | ok existing =>
      cases hexpiry : Certificate.readExpiry existing with
      | error e =>
        simp only [hexpiry]
        rfl
      | ok expiry =>
        simp only [hexpiry]
        cases Certificate.needsRenewal expiry now with
        | false => rfl
        | true =>
          rcases hstore : m.store (m.renew existing h).1 (m.renew existing h).2 with ⟨h', e | ⟨⟩⟩
          · simp [put, hstore, Except.map]
          · simp [put, hstore, Except.map]

omit [CertClient γ χ] in
theorem due?_eq_some {files : FileTree} {now : Int} {existing : String} :
    m.due? files now = .ok (some existing) ↔
      m.Wants files (.renewIfDue now) (.renew existing) := by
  constructor
  · intro h
    rw [due?] at h
    split at h
    · cases h
    next hacme =>
      split at h
      · cases h
      next found hread =>
        split at h
        · cases h
        next expiry hexpiry =>
          obtain ⟨hdue, hfound⟩ := Option.ite_none_right_eq_some.1 (Except.ok.inj h)
          obtain rfl := Option.some.inj hfound
          exact ⟨by simpa using hacme, hread, expiry, hexpiry,
            Certificate.needsRenewal_iff.1 hdue⟩
  · rintro ⟨hacme, hread, expiry, hexpiry, hdue⟩
    simp only [due?, hacme, hread, hexpiry, Certificate.needsRenewal_iff.2 hdue, Bool.not_true,
      Bool.false_eq_true, if_false, if_true]

theorem served_renewIfDue (m : CertManager γ) (h : Host χ) (now : Int) :
    ∃ asked, Served m h (.renewIfDue now) asked := by
  have hplain := m.serve_renewIfDue h now
  have hwatched := fun log => m.watched.serve_renewIfDue (h.logged log) now
  have hsame : ∀ log, m.watched.due? (h.logged log).files now = m.due? h.files now := fun _ => rfl
  have hidle : (∀ existing, m.due? h.files now ≠ .ok (some existing)) →
      ∀ q, ¬m.Wants h.files (.renewIfDue now) q := by
    intro hnone q
    cases q with
    | obtain => exact id
    | renew existing => exact fun hwants => hnone existing (due?_eq_some.2 hwants)
  simp only [hsame] at hwatched
  rcases hdue : m.due? h.files now with e | _ | existing <;> rw [hdue] at hplain hwatched
  · exact ⟨[], .of_idle hplain hwatched (hidle (by simp [hdue])) nofun⟩
  · exact ⟨[], .of_idle hplain hwatched (hidle (by simp [hdue])) nofun⟩
  · exact ⟨_, .of_asked (due?_eq_some.1 hdue) hplain hwatched⟩

theorem served (m : CertManager γ) (h : Host χ) (c : Call) : Served m h c (m.dialogue h [c]) := by
  have hserved : ∃ asked, Served m h c asked := by
    cases c with
    | ensure => exact m.served_ensure h
    | renewIfDue now => exact m.served_renewIfDue h now
  obtain ⟨asked, hserved⟩ := hserved
  have hasked : m.dialogue h [c] = asked := congrArg (fun r => r.1.outside.2) (hserved.logged [])
  rw [hasked]
  exact hserved

theorem run_logged (m : CertManager γ) (h : Host χ) (calls : List Call) (log : List Exchange) :
    m.watched.run (h.logged log) calls = (m.run h calls).logged (log ++ m.dialogue h calls) := by
  have hsome : ∃ asked, ∀ log,
      m.watched.run (h.logged log) calls = (m.run h calls).logged (log ++ asked) := by
    clear log
    induction calls generalizing h with
    | nil => exact ⟨[], fun log => by rw [List.append_nil]; rfl⟩
    | cons c calls ih =>
      obtain ⟨asked, hasked⟩ := ih (m.serve h c).1
      refine ⟨m.dialogue h [c] ++ asked, fun log => ?_⟩
      rw [run, List.foldl_cons, (m.served h c).logged log]
      exact (hasked _).trans (by rw [List.append_assoc]; rfl)
  obtain ⟨asked, hasked⟩ := hsome
  have hdialogue : m.dialogue h calls = asked := congrArg (fun h => h.outside.2) (hasked [])
  rw [hdialogue, hasked]

theorem run_append (m : CertManager γ) (h : Host χ) (calls calls' : List Call) :
    m.run h (calls ++ calls') = m.run (m.run h calls) calls' := List.foldl_append

theorem dialogue_append (m : CertManager γ) (h : Host χ) (calls calls' : List Call) :
    m.dialogue h (calls ++ calls') = m.dialogue h calls ++ m.dialogue (m.run h calls) calls' := by
  rw [dialogue, run_append, run_logged, run_logged]
  rfl

section Grows

omit [CertClient γ χ]

theorem writeFile_grows (files : FileTree) (path text : String) :
    files.Grows (writeFile files path text).1 := by
  rcases writeFile_cases files path text with
    ⟨-, hwritten⟩ | ⟨-, hspreads | ⟨part, -, hwritten⟩⟩
  · exact hwritten.toGrows
  · exact hspreads.toGrows
  · exact hwritten.toGrows

theorem store_grows (m : CertManager γ) (h : Host χ) (pair : Except CertError CertPair) :
    h.files.Grows (m.store h pair).1.files := by
  cases pair with
  | error e => exact .refl _
  | ok p =>
    change h.files.Grows (m.writePair p h.files).1
    have hfirst := writeFile_grows h.files m.paths.cert p.cert
    rw [writePair]
    rcases hcert : writeFile h.files m.paths.cert p.cert with ⟨files, e | ⟨⟩⟩ <;>
      rw [hcert] at hfirst
    · exact hfirst
    · exact hfirst.trans (writeFile_grows files m.paths.key p.key)

end Grows

theorem serve_grows (client : ∀ (h : Host χ) q, h.files.Grows (m.put h q).1.files) (h : Host χ)
    (c : Call) : h.files.Grows (m.serve h c).1.files := by
  have hserving := (m.served h c).ends
  generalize m.dialogue h [c] = asked at hserving
  generalize m.serve h c = served at hserving ⊢
  cases hserving with
  | idle => exact .refl _
  | signed => exact m.store_grows h _
  | asked => exact (client h _).trans (m.store_grows _ _)

theorem pairExists_run (client : ∀ (h : Host χ) q, h.files.Grows (m.put h q).1.files)
    (calls : List Call) {h : Host χ} (there : m.pairExists h.files = true) :
    m.pairExists (m.run h calls).files = true := by
  induction calls generalizing h with
  | nil => exact there
  | cons c calls ih =>
    refine ih ?_
    have hgrows := serve_grows client h c
    rw [pairExists, Bool.and_eq_true] at there ⊢
    exact ⟨hgrows.exists? there.1, hgrows.exists? there.2⟩

/-- A call has a pair to write: the client has given one, or it was signed here. -/
def Issues (m : CertManager γ) (h : Host χ) (c : Call) : Prop :=
  (∃ e ∈ m.dialogue h [c], ∃ p, e.answer = .ok p) ∨
    m.mode = .selfSigned ∧ c = .ensure ∧ m.pairExists h.files = false ∧
      ∃ p, selfSign h m.domain = .ok p

structure Lawful (m : CertManager γ) (h : Host χ) (c : Call) : Prop where
  asks : ∀ q, (∃ e ∈ m.dialogue h [c], e.request = q) ↔ m.Wants h.files c q ∧ m.client ≠ none
  once : (m.dialogue h [c]).length ≤ 1
  idle : m.mode = .none ∨ m.mode = .file → (m.serve h c).1 = h
  signs : m.mode = .selfSigned →
    (m.serve h c).1 = h ∨ c = .ensure ∧ m.pairExists h.files = false
  keeps : ¬m.Issues h c →
    (m.serve h c).1 = h ∨ ∃ q, m.Wants h.files c q ∧ (m.serve h c).1 = (m.put h q).1
  ensures : c = .ensure → (m.serve h c).2 = .ok () → m.mode ≠ .none → m.mode ≠ .file →
    (m.serve h c).1.files.exists? m.paths.cert = true ∧
      (m.serve h c).1.files.exists? m.paths.key = true

omit [CertClient γ χ] in
theorem Wants.acme {files : FileTree} {c : Call} {q : Request} (w : m.Wants files c q) :
    m.mode.isAcme = true := by
  cases c <;> cases q
  · exact w.1
  · exact w.elim
  · exact w.elim
  · exact w.1

omit [CertClient γ χ] in
theorem Wants.unique {files : FileTree} {c : Call} {q q' : Request} (w : m.Wants files c q)
    (w' : m.Wants files c q') : q' = q := by
  cases c <;> cases q <;> cases q'
  · rfl
  · exact w'.elim
  · exact w.elim
  · exact w.elim
  · exact w.elim
  · exact w.elim
  · exact w'.elim
  · rw [Except.ok.inj (w'.2.1.symm.trans w.2.1)]

theorem mem_exchanges {q : Request} {e : Exchange} : e ∈ m.exchanges h q ↔
    m.client ≠ none ∧ e = ⟨q, m.domain, (m.put h q).2⟩ := by
  rw [exchanges]
  cases m.client <;> simp

theorem client_of_put_ok {q : Request} {p : CertPair} (issued : (m.put h q).2 = .ok p) :
    m.client ≠ none := by
  intro hnone
  cases q <;> simp [put, obtain, renew, hnone] at issued

namespace Serving

variable {c : Call} {asked : List Exchange} {r : Host χ × Except CertError Unit}

theorem asks (s : Serving m h c asked r) (q : Request) :
    (∃ e ∈ asked, e.request = q) ↔ m.Wants h.files c q ∧ m.client ≠ none := by
  cases s with
  | idle needless => exact iff_of_false (by simp) fun hwants => needless q hwants.1
  | signed mode =>
    refine iff_of_false (by simp) fun ⟨hwants, _⟩ => ?_
    have hacme := hwants.acme
    rw [mode] at hacme
    cases hacme
  | asked wants =>
    simp only [mem_exchanges]
    constructor
    · rintro ⟨e, ⟨hclient, rfl⟩, rfl⟩
      exact ⟨wants, hclient⟩
    · rintro ⟨hwants, hclient⟩
      exact ⟨_, ⟨hclient, rfl⟩, (wants.unique hwants).symm⟩

theorem once (s : Serving m h c asked r) : asked.length ≤ 1 := by
  cases s with
  | idle | signed => exact Nat.zero_le _
  | asked =>
    rw [exchanges]
    cases m.client <;> simp

theorem same_or_missing (s : Serving m h c asked r) (other : m.mode.isAcme = false) :
    r.1 = h ∨ m.mode = .selfSigned ∧ c = .ensure ∧ m.pairExists h.files = false := by
  cases s with
  | idle => exact .inl rfl
  | signed mode missing => exact .inr ⟨mode, rfl, missing⟩
  | asked wants =>
    rw [wants.acme] at other
    cases other

theorem keeps (s : Serving m h c asked r) (unissued : ∀ e ∈ asked, ∀ p, e.answer ≠ .ok p)
    (unsigned : m.mode = .selfSigned → c = .ensure → m.pairExists h.files = false →
      ∀ p, selfSign h m.domain ≠ .ok p) :
    r.1 = h ∨ ∃ q, m.Wants h.files c q ∧ r.1 = (m.put h q).1 := by
  cases s with
  | idle => exact .inl rfl
  | signed mode missing pair => exact absurd pair (unsigned mode rfl missing _)
  | @asked _ q wants =>
    refine .inr ⟨q, wants, ?_⟩
    cases hanswer : (m.put h q).2 with
    | error e => rfl
    | ok p => exact absurd hanswer (unissued _ (mem_exchanges.2 ⟨client_of_put_ok hanswer, rfl⟩) p)

theorem ensures (s : Serving m h .ensure asked r) (ok : r.2 = .ok ()) (none : m.mode ≠ .none)
    (file : m.mode ≠ .file) : m.pairExists r.1.files = true := by
  cases s with
  | idle needless there => exact there rfl ok none file
  | signed => exact store_ok (Prod.ext rfl ok)
  | asked => exact store_ok (Prod.ext rfl ok)

end Serving

theorem lawful (m : CertManager γ) (h : Host χ) (c : Call) : m.Lawful h c := by
  have hserving := (m.served h c).ends
  constructor
  case asks => exact hserving.asks
  case once => exact hserving.once
  case idle =>
    intro hmode
    have hother : m.mode.isAcme = false := by
      rcases hmode with hmode | hmode <;> rw [hmode] <;> rfl
    refine (hserving.same_or_missing hother).resolve_right fun ⟨hself, _⟩ => ?_
    simp [hself] at hmode
  case signs =>
    intro hself
    have hother : m.mode.isAcme = false := by
      rw [hself]
      rfl
    exact (hserving.same_or_missing hother).imp_right And.right
  case keeps =>
    intro hnone
    rw [Issues, not_or] at hnone
    refine hserving.keeps (fun e he p hp => hnone.1 ⟨e, he, p, hp⟩) fun hmode hc hmissing p hp => ?_
    exact hnone.2 ⟨hmode, hc, hmissing, p, hp⟩
  case ensures =>
    rintro rfl hok hnone hfile
    have hpair := hserving.ensures hok hnone hfile
    rwa [pairExists, Bool.and_eq_true] at hpair

theorem dialogue_of_not_acme (other : m.mode.isAcme = false) (h : Host χ) (calls : List Call) :
    m.dialogue h calls = [] := by
  induction calls generalizing h with
  | nil => rfl
  | cons c calls ih =>
    have hfirst : m.dialogue h [c] = [] := by
      refine List.eq_nil_iff_forall_not_mem.2 fun e he => ?_
      have hwants := (((m.lawful h c).asks e.request).1 ⟨e, he, rfl⟩).1
      rw [hwants.acme] at other
      cases other
    rw [show c :: calls = [c] ++ calls from rfl, dialogue_append, hfirst, ih]
    rfl

theorem run_idle (mode : m.mode = .none ∨ m.mode = .file) (h : Host χ) (calls : List Call) :
    m.run h calls = h := by
  induction calls with
  | nil => rfl
  | cons c calls ih =>
    rw [run, List.foldl_cons, (m.lawful h c).idle mode]
    exact ih

/--
Any calls of a manager, with any client and any files. The watched run is the run itself. Without an
authority no client is asked, and nothing at all is done where certificates are someone else's
business. Each call is lawful. Without a new pair it leaves both files as they are if the client
does; and a pair that it has seen to stays there if the client takes nothing away.
-/
theorem run_lawful (m : CertManager γ) (h : Host χ) (calls : List Call) :
    (m.watched.run (h.logged []) calls).unlogged = m.run h calls ∧
      (m.mode.isAcme = false → m.dialogue h calls = []) ∧
      (m.mode = .none ∨ m.mode = .file → m.run h calls = h) ∧
      ∀ before c after, calls = before ++ c :: after →
        let h₁ := m.run h before
        m.dialogue h calls =
          m.dialogue h before ++ m.dialogue h₁ [c] ++ m.dialogue (m.serve h₁ c).1 after ∧
        m.Lawful h₁ c ∧
        ((∀ (h : Host χ) q, m.KeepsPair h (m.put h q).1) →
          ¬m.Issues h₁ c → m.KeepsPair h₁ (m.serve h₁ c).1) ∧
        ((∀ (h : Host χ) q, h.files.Grows (m.put h q).1.files) → c = .ensure →
          (m.serve h₁ c).2 = .ok () → m.mode ≠ .none → m.mode ≠ .file →
          m.pairExists (m.run h calls).files = true) := by
  refine ⟨by rw [run_logged]; rfl, fun hother => dialogue_of_not_acme hother h calls,
    fun hmode => run_idle hmode h calls, ?_⟩
  rintro before c after rfl h₁
  have hlawful := m.lawful h₁ c
  refine ⟨?_, hlawful, fun hclient hnone => ?_, fun hclient hc hok hown hfile => ?_⟩
  · rw [dialogue_append, show c :: after = [c] ++ after from rfl, dialogue_append,
      List.append_assoc]
    rfl
  · rcases hlawful.keeps hnone with hsame | ⟨q, -, hleft⟩
    · rw [hsame]
      exact .refl m h₁
    · rw [hleft]
      exact hclient h₁ q
  · have hpair : m.pairExists (m.serve h₁ c).1.files = true := by
      rw [pairExists, Bool.and_eq_true]
      exact hlawful.ensures hc hok hown hfile
    rw [run_append]
    exact pairExists_run hclient after hpair

theorem expired_shown :
    ∃ e ∈ issuer.dialogue (keyHeld { error := .permissionDenied }) [.renewIfDue 1767225600],
      e.request = .renew (certificateUntil "Ax") := by
  obtain ⟨-, -, -, hcalls⟩ :=
    issuer.run_lawful (keyHeld { error := .permissionDenied }) [.renewIfDue 1767225600]
  obtain ⟨-, hlawful, -⟩ := hcalls [] _ [] rfl
  exact (hlawful.asks _).2
    ⟨⟨rfl, (keyHeld_expired _).read, 981173106, readExpiry_expired, by decide⟩, nofun⟩

end CertManager

end NodeAgent
