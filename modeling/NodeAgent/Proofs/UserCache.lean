import NodeAgent.Proofs.Linked
import NodeAgent.Proofs.Versions

/-!
The version that a client remembers and the list to which its node was brought. Between the two comes
a sync, which may fail.
-/

namespace NodeAgent

namespace PanelClient

inductive UsersTaken (c : PanelClient) (r : Option HttpResponse) :
    PanelClient × Except PanelError (Option (List User)) → Prop
  | failed (e : PanelError)
      (new : ∀ resp, r = some resp → resp.status ≠ HttpResponse.notModified)
      (useless : ∀ content, HttpResponse.carried r = some content →
        e = .decode c.usersUrl openDetail) :
      UsersTaken c r (c, .error e)
  | unchanged (resp : HttpResponse) (came : r = some resp)
      (same : resp.status = HttpResponse.notModified) : UsersTaken c r (c, .ok none)
  | changed (content : Content) (users : List User) (came : HttpResponse.carried r = some content)
      (list : usersOf content = some users) :
      UsersTaken c r ({ c with etag := content.etag }, .ok (some users))

theorem takeUsers_taken (c : PanelClient) (r : Option HttpResponse) :
    UsersTaken c r (c.takeUsers r) := by
  unfold takeUsers
  have hsame := HttpResponse.content_eq_none_iff (u := c.usersUrl) (r := r)
  cases hcontent : HttpResponse.content c.usersUrl r with
  | error e =>
    rw [hcontent] at hsame
    refine .failed e (fun resp hr hstatus => nomatch hsame.2 ⟨resp, hr, hstatus⟩)
      fun content hcame => ?_
    rw [← HttpResponse.content_eq_some_iff (u := c.usersUrl), hcontent] at hcame
    cases hcame
  | ok o =>
    cases o with
    | none =>
      obtain ⟨resp, hr, hstatus⟩ := hsame.1 hcontent
      exact .unchanged resp hr hstatus
    | some content =>
      dsimp only
      cases hlist : usersOf content with
      | none =>
        rw [hcontent] at hsame
        exact .failed _ (fun resp hr hstatus => nomatch hsame.2 ⟨resp, hr, hstatus⟩) fun _ _ => rfl
      | some users =>
        exact .changed content users (HttpResponse.content_eq_some_iff.1 hcontent) hlist

end PanelClient

def Session.listAfter (s : Session) : Except PanelError (Option (List User)) → List User
  | .ok (some users) => users
  | _ => s.users

def Errand.fails : Errand → Bool
  | .dead => true
  | .waiting (.invalidate _) => true
  | _ => false

namespace LinkedNode

variable {ε : Type}

def due (x : LinkedNode ε) : List User :=
  match x.fetched with
  | some a => x.node.session.listAfter a
  | none => x.node.session.users

def SyncsWell [Engine ε] (x : LinkedNode ε) : Prop :=
  ∃ a, x.fetched = some a ∧
    (x.node.session.resume x.node.core .users a).progress = .finished (.ok ())

end LinkedNode

namespace RunningNode

variable {ε : Type} [Engine ε] {x : RunningNode ε}

theorem step_session {e : NodeEvent} (he : ∀ a, e ≠ .users a) :
    (x.step e).session = x.session := by
  refine (x.step_sameUsers ?_).1
  cases e with
  | users a => exact absurd rfl (he a)
  | _ => rfl

theorem step_sync {e : NodeEvent} (he : ∀ a, e ≠ .users a)
    (hfailed : e = .invalidated → ∀ f, x.sync ≠ .waiting (.invalidate f))
    (hidle : x.sync ≠ .idle) (halive : x.sync ≠ .waiting .alive) : (x.step e).sync = x.sync := by
  cases e with
  | users a => exact absurd rfl (he a)
  | invalidated =>
    simp only [step]
    split
    next f hf => exact absurd hf (hfailed rfl f)
    · rfl
  | beginSync => rw [step, if_neg hidle]
  | alive a => rw [step, if_neg halive]
  | beginReport =>
    simp only [step]
    split <;> rfl
  | posted a =>
    simp only [step]
    split <;> rfl
  | _ => rfl

theorem step_sync_of_waiting {e : NodeEvent} (he : ∀ a, e ≠ .users a)
    (hw : x.sync = .waiting .users) : (x.step e).sync = .waiting .users := by
  rw [step_sync he (fun _ f => by rw [hw]; nofun) (by rw [hw]; nofun) (by rw [hw]; nofun), hw]

theorem step_fails {e : NodeEvent} (he : ∀ a, e ≠ .users a) (hi : e ≠ .invalidated)
    (h : x.sync.fails = true) : (x.step e).sync.fails = true := by
  rw [step_sync he (fun h' => absurd h' hi) (fun hidle => ?_) (fun halive => ?_)]
  · exact h
  · rw [hidle] at h
    cases h
  · rw [halive] at h
    cases h

theorem step_users (hw : x.sync = .waiting .users) (a : Except PanelError (Option (List User))) :
    (x.step (.users a)).session.users = x.session.listAfter a ∨
      (x.step (.users a)).sync.fails = true ∧
        (x.session.resume x.core .users a).progress ≠ .finished (.ok ()) := by
  rw [step_users_of_waiting hw]
  rcases a with e | _ | l
  · exact .inl rfl
  · exact .inl rfl
  · simp only [answerSync, Session.resume, Session.afterUsers]
    split
    · exact .inl rfl
    · exact .inr ⟨rfl, fun heq => by cases heq⟩
    · exact .inr ⟨rfl, fun heq => by cases heq⟩

end RunningNode

namespace LinkedNode

variable {ε : Type} [Engine ε] {x : LinkedNode ε} {of : String → List User}

/-- Unless the sync has failed, the version that the client remembers is of the list that is due. -/
structure Coherent (x : LinkedNode ε) (of : String → List User) : Prop where
  waits : x.fetched ≠ none → x.node.sync = .waiting .users
  version : x.node.sync.fails = false → ∀ v, x.client.etag = some v → x.due = of v

theorem Coherent.fetch (h : x.Coherent of) {r : Option HttpResponse}
    (hr : KeepsVersions PanelClient.usersOf of r) : (x.step (.fetch r)).Coherent of := by
  simp only [LinkedNode.step]
  split
  next hw =>
    have hdue : x.due = x.node.session.users := by rw [due, hw.2]
    have hversion := h.version (by rw [hw.1]; rfl)
    rw [hdue] at hversion
    have htaken := x.client.takeUsers_taken r
    generalize x.client.takeUsers r = p at htaken ⊢
    refine ⟨fun _ => hw.1, fun _ v hv => ?_⟩
    cases htaken with
    | failed => exact hversion v hv
    | unchanged => exact hversion v hv
    | changed content users came list => exact hr content v users came hv list
  · exact h

theorem Coherent.deliver (h : x.Coherent of) : (x.step .deliver).Coherent of := by
  simp only [LinkedNode.step]
  cases hfetched : x.fetched with
  | none => exact h
  | some a =>
    have hw : x.node.sync = .waiting .users := h.waits (by simp [hfetched])
    refine ⟨fun hne => absurd rfl hne, fun hfails v hv => ?_⟩
    have hversion := h.version (by rw [hw]; rfl) v hv
    rw [due, hfetched] at hversion
    rcases RunningNode.step_users hw a with htaken | ⟨hfailed, -⟩
    · exact htaken.trans hversion
    -- the version is of a list that the node could not take in, and is dropped next
    · rw [hfailed] at hfails
      cases hfails

theorem Coherent.forget (h : x.Coherent of) : (x.step .forget).Coherent of :=
  ⟨h.waits, fun _ _ hv => nomatch hv⟩

theorem ne_users_of_admits {c : PanelClient} {e : NodeEvent} (h : c.admits e = true) :
    ∀ a, e ≠ .users a := by
  rintro a rfl
  cases h

theorem Coherent.node (h : x.Coherent of) (e : NodeEvent) : (x.step (.node e)).Coherent of := by
  simp only [LinkedNode.step]
  split
  next hadmits =>
    have he := ne_users_of_admits hadmits
    refine ⟨fun hne => RunningNode.step_sync_of_waiting he (h.waits hne), fun hfails v hv => ?_⟩
    -- a failed sync is over only when there is no version left
    have hi : e ≠ .invalidated := by
      rintro rfl
      rw [PanelClient.admits, Option.isNone_iff_eq_none] at hadmits
      cases hadmits.symm.trans hv
    have hbefore : x.node.sync.fails = false := by
      cases hfailed : x.node.sync.fails with
      | false => rfl
      | true => exact hfails ▸ (RunningNode.step_fails he hi hfailed).symm
    rw [← h.version hbefore v hv]
    simp only [due, RunningNode.step_session he]
  · exact h

theorem Coherent.run (h : x.Coherent of) {es : List LinkEvent}
    (hes : ∀ r, .fetch r ∈ es → KeepsVersions PanelClient.usersOf of r) :
    (x.run es).Coherent of := by
  refine run_invariant (P := (·.Coherent of)) (fun y e he hy => ?_) h
  cases e with
  | fetch r => exact hy.fetch (hes r he)
  | deliver => exact hy.deliver
  | forget => exact hy.forget
  | node e => exact hy.node e

theorem run_fetched {a : Except PanelError (Option (List User))}
    (hw : x.node.sync = .waiting .users) (ha : x.fetched = some a) {es : List LinkEvent} (hes : .deliver ∉ es) :
    (x.run es).fetched = some a ∧ (x.run es).node.sync = .waiting .users ∧
      (x.run es).node.session = x.node.session := by
  refine run_invariant (P := fun y => y.fetched = some a ∧ y.node.sync = .waiting .users ∧
    y.node.session = x.node.session) (fun y e he hy => ?_) ⟨ha, hw, rfl⟩
  obtain ⟨hfetched, hsync, hsession⟩ := hy
  cases e with
  | fetch r =>
    rw [LinkedNode.step, if_neg (by simp [hfetched])]
    exact ⟨hfetched, hsync, hsession⟩
  | deliver => exact absurd he hes
  | forget => exact ⟨hfetched, hsync, hsession⟩
  | node e =>
    simp only [LinkedNode.step]
    split
    next hadmits =>
      have he := ne_users_of_admits hadmits
      exact ⟨hfetched, RunningNode.step_sync_of_waiting he hsync,
        (RunningNode.step_session he).trans hsession⟩
    · exact ⟨hfetched, hsync, hsession⟩

omit [Engine ε] in
theorem Coherent.listAfter_eq (h : x.Coherent of) (waits : x.node.sync = .waiting .users)
    (fetched : x.fetched = none) {r : Option HttpResponse} {now : List User}
    (answers : Answers PanelClient.usersOf of x.client.etag now r) {o : Option (List User)}
    (ho : (x.client.takeUsers r).2 = .ok o) : x.node.session.listAfter (.ok o) = now := by
  have htaken := x.client.takeUsers_taken r
  generalize x.client.takeUsers r = p at htaken ho
  cases htaken with
  | failed => cases ho
  | unchanged resp came same =>
    cases ho
    obtain ⟨v, hv, rfl⟩ := answers.unchanged resp came same
    have hdue := h.version (by rw [waits]; rfl) v hv
    rwa [due, fetched] at hdue
  | changed content users came list =>
    cases ho
    exact answers.told content users came list

/-- An answer that came whole, or that says that nothing is new. -/
def Received (r : Option HttpResponse) : Prop :=
  HttpResponse.carried r ≠ none ∨ ∃ resp, r = some resp ∧ resp.status = HttpResponse.notModified

theorem ok_of_received {s : Session} {c : Core ε} {client : PanelClient} {r : Option HttpResponse}
    (received : Received r)
    (hends : (s.resume c .users (client.takeUsers r).2).progress = .finished (.ok ())) :
    ∃ o, (client.takeUsers r).2 = .ok o := by
  have htaken := client.takeUsers_taken r
  generalize client.takeUsers r = p at htaken hends ⊢
  cases htaken with
  | failed e new useless =>
    rcases received with hcarried | ⟨resp, hr, hstatus⟩
    · obtain ⟨content, hcontent⟩ := Option.ne_none_iff_exists'.1 hcarried
      obtain rfl := useless content hcontent
      cases hends
    · exact absurd hstatus (new resp hr)
  | unchanged => exact ⟨none, rfl⟩
  | changed content users => exact ⟨some users, rfl⟩

theorem Coherent.synced (h : x.Coherent of) (waits : x.node.sync = .waiting .users)
    (fetched : x.fetched = none) {r : Option HttpResponse} {now : List User}
    (answers : Answers PanelClient.usersOf of x.client.etag now r) (received : Received r)
    {es : List LinkEvent} (hes : .deliver ∉ es) (ends : ((x.step (.fetch r)).run es).SyncsWell) :
    (((x.step (.fetch r)).run es).step .deliver).node.session.users = now := by
  have hfetch : x.step (.fetch r) =
      { x with client := (x.client.takeUsers r).1, fetched := some (x.client.takeUsers r).2 } :=
    if_pos ⟨waits, fetched⟩
  obtain ⟨hfetched, hsync, hsession⟩ : ((x.step (.fetch r)).run es).fetched =
      some (x.client.takeUsers r).2 ∧ ((x.step (.fetch r)).run es).node.sync = .waiting .users ∧
        ((x.step (.fetch r)).run es).node.session = x.node.session := by
    rw [hfetch]
    exact run_fetched (x := { x with client := _, fetched := some _ }) waits rfl hes
  generalize (x.step (.fetch r)).run es = y at ends hfetched hsync hsession ⊢
  obtain ⟨a, ha, hends⟩ := ends
  obtain rfl : (x.client.takeUsers r).2 = a := Option.some.inj (hfetched.symm.trans ha)
  have hstep : (y.step .deliver).node = y.node.step (.users (x.client.takeUsers r).2) := by
    rw [LinkedNode.step, hfetched]
  obtain ⟨o, ho⟩ := ok_of_received received hends
  rcases RunningNode.step_users hsync (x.client.takeUsers r).2 with htaken | ⟨-, hfailed⟩
  · rw [hstep, htaken, hsession, ho]
    exact h.listAfter_eq waits fetched answers ho
  · exact absurd hends hfailed

section Start

variable {χ : Type} [Shell χ] [HttpNetwork χ]

theorem Coherent.place_run {p : Place χ ε PanelClient}
    (network : ∀ r, Place.Sent χ r → KeepsVersions PanelClient.usersOf of r) {task : PanelTask}
    {other : Errand} {fetched : Option (Except PanelError (Option (List User)))}
    (hf : task = .sync → fetched = none) (h : (p.linked task .idle other fetched).Coherent of) :
    ((p.run task.duty).1.linked task (.ofPause (p.run task.duty).2) other
      ((p.run task.duty).2.fetched?.or fetched)).Coherent of := by
  obtain ⟨es, hsent, hrun⟩ := p.run_is_linked_run other hf
  exact hrun ▸ h.run fun r hr => network r (hsent r hr)

theorem Coherent.place_resume {p : Place χ ε PanelClient}
    (network : ∀ r, Place.Sent χ r → KeepsVersions PanelClient.usersOf of r) {task : PanelTask}
    {other : Errand} {fetched : Option (Except PanelError (Option (List User)))}
    (hf : task = .sync → fetched = none) {stage : Stage} {a : stage.request.Answer}
    (hstage : stage.task? = some task)
    (forgot : ∀ f, stage = .invalidate f → p.node.client.etag = none)
    (h : (p.linked task (.waiting stage) other ((stage.fetched? a).or fetched)).Coherent of) :
    ((p.resume stage a).1.linked task (.ofPause (p.resume stage a).2) other
      ((p.resume stage a).2.fetched?.or fetched)).Coherent of := by
  obtain ⟨es, hsent, hrun⟩ := p.resume_is_linked_run other a hstage hf forgot
  exact hrun ▸ h.run fun r hr => network r (hsent r hr)

def started (p : Place χ ε PanelClient) (users : List User)
    (alive : Except PanelError AliveCounts) : LinkedNode ε where
  node := RunningNode.started p users alive
  client := (p.resume (.firstAlive users) alive).1.node.client

omit [HttpNetwork χ] in
theorem enroll_client {p : Place χ ε PanelClient} (users : List User) :
    (p.enroll users).1.node.client = p.node.client := by
  simp only [Place.enroll, Place.failEnrolling]
  split
  · rfl
  · split <;> rfl

theorem started_coherent {p : Place χ ε PanelClient} {users : List User}
    {alive : Except PanelError AliveCounts} (h : p.Starts users alive)
    (version : ∀ v, p.node.client.etag = some v → users = of v) :
    (started p users alive).Coherent of := by
  obtain ⟨l, p', -, henroll, hturn⟩ := h.enrolls
  obtain ⟨hsession, -⟩ := Place.enroll_ok henroll
  have hclient : p'.node.client = p.node.client := by
    have hkept := enroll_client (p := { p with core :=
      { p.core with limiters := p.core.limiters.insert p.node.session.tag l } }) users
    rwa [henroll] at hkept
  refine ⟨fun hne => absurd rfl hne, fun _ v hv => ?_⟩
  simp only [started, RunningNode.started, hturn, due, RunningNode.ofPlace, hsession] at hv ⊢
  exact version v (hclient ▸ hv)

/--
Whatever has happened before, and whatever the panel has answered: a sync that ends well with what the
panel tells about its users leaves the session the list that the panel has as it answers.
-/
theorem session_has_panel_list {p : Place χ ε PanelClient} {users : List User}
    {alive : Except PanelError AliveCounts} (starts : p.Starts users alive) {c : PanelClient}
    {first : Option HttpResponse} (begins : c.takeUsers first = (p.node.client, .ok (some users)))
    {es : List LinkEvent} (versions : ∀ r, .fetch r ∈ .fetch first :: es →
      KeepsVersions PanelClient.usersOf of r)
    {x : LinkedNode ε} (reached : (started p users alive).run es = x)
    (waits : x.node.sync = .waiting .users) (fetched : x.fetched = none)
    {r : Option HttpResponse} {now : List User}
    (answers : Answers PanelClient.usersOf of x.client.etag now r) (received : Received r)
    {es' : List LinkEvent} (underway : .deliver ∉ es')
    (ends : ((x.step (.fetch r)).run es').SyncsWell) :
    (((x.step (.fetch r)).run es').step .deliver).node.session.users = now := by
  have hfirst : ∀ v, p.node.client.etag = some v → users = of v := by
    intro v hv
    have htaken := c.takeUsers_taken first
    rw [begins] at htaken
    generalize p.node.client = client at htaken hv
    cases htaken with
    | changed content _ came list =>
      exact versions first (List.mem_cons_self ..) content v users came hv list
  have hcoherent : x.Coherent of :=
    reached ▸ (started_coherent starts hfirst).run fun q hq => versions q (List.mem_cons_of_mem _ hq)
  exact hcoherent.synced waits fetched answers received underway ends

end Start

section ShortKey

def alice : User := ⟨1, "0123456789abcdef", 0, 0⟩

def shortKey : User := ⟨2, "short", 0, 0⟩

def listOf (version : String) : List User := if version = "v1" then [alice] else [alice, shortKey]

def aliceAlone : HttpResponse where
  status := 200
  etag := some "v1"
  body := some "\x7b\"users\":[\x7b\"id\":1,\"uuid\":\"0123456789abcdef\"\x7d]\x7d".toUTF8.toList

def withShortKey : HttpResponse where
  status := 200
  etag := some "v2"
  body := some ("\x7b\"users\":[\x7b\"id\":1,\"uuid\":\"0123456789abcdef\"\x7d," ++
    "\x7b\"id\":2,\"uuid\":\"short\"\x7d]\x7d").toUTF8.toList

def firstPlace : Place Offline LocalEngine PanelClient where
  number := 0
  node := Node.new ⟨"http://p", "shadowsocks", 1, "secret", some "v1"⟩
    { id := 1, kind := .shadowsocks, endpoint := { cipher := "2022-blake3-aes-128-gcm" } }
  core := { engine := {} }
  host := { outside := {} }

def syncBegins : List LinkEvent := [.node .beginSync, .node (.alive (.ok ∅))]

def shortKeyComesAndGoes : List LinkEvent :=
  syncBegins ++ [.fetch (some withShortKey), .deliver, .forget, .node .invalidated] ++
    syncBegins ++ [.fetch (some aliceAlone), .deliver] ++ syncBegins

theorem alice_alone_after_short_key :
    let x := (started firstPlace [alice] (.ok ∅)).run shortKeyComesAndGoes
    let y := (x.step (.fetch (some ⟨304, none, some []⟩))).run [.node (.elapse 60000)]
    (y.step .deliver).node.session.users = [alice] := by
  intro x y
  have hstarts : firstPlace.Starts [alice] (.ok ∅) := by decide +kernel
  have hversions : ∀ r, .fetch r ∈ .fetch (some aliceAlone) :: shortKeyComesAndGoes →
      KeepsVersions PanelClient.usersOf listOf r := by
    intro r hr c v a hcame hv ha
    have hlists : ∀ r ∈ [some aliceAlone, some withShortKey], ∀ c ∈ HttpResponse.carried r,
        ∀ v ∈ c.etag, ∀ a ∈ PanelClient.usersOf c, a = listOf v := by decide +kernel
    refine hlists r ?_ c hcame v hv a ha
    simpa [shortKeyComesAndGoes, syncBegins, or_comm] using hr
  have hbegins : { firstPlace.node.client with etag := none }.takeUsers (some aliceAlone) =
      (firstPlace.node.client, .ok (some [alice])) := by decide +kernel
  obtain ⟨hversion, hwaits, hfetched, hunchanged, hends⟩ : x.client.etag = some "v1" ∧
      x.node.sync = .waiting .users ∧ x.fetched = none ∧ y.fetched = some (.ok none) ∧
        (y.node.session.resume y.node.core .users (.ok none)).progress = .finished (.ok ()) := by
    decide +kernel
  have hanswers : Answers PanelClient.usersOf listOf x.client.etag [alice]
      (some ⟨304, none, some []⟩) :=
    ⟨fun _ _ _ => ⟨"v1", hversion, rfl⟩, fun _ _ hcame => by cases hcame⟩
  exact session_has_panel_list hstarts hbegins hversions rfl hwaits hfetched hanswers
    (.inr ⟨_, rfl, rfl⟩) (by simp) ⟨.ok none, hunchanged, hends⟩

end ShortKey

end LinkedNode

end NodeAgent
