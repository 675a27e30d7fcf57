import NodeAgent.Panel.ServerClient
import NodeAgent.Proofs.Versions

/-!
How the server's configuration is seen to change. What the client remembers is always about the body
that it gave on last, whatever came in between.
-/

namespace NodeAgent.ServerClient

def Usable (body : List UInt8) (reply : ServerReply) : Prop :=
  ((Text.Utf8.decode? body).bind Json.read).bind ServerReply.ofJson = some reply ∧
    (reply.data.bind (·.endpoints)).isSome = true

theorem replyOf_eq_ok_iff {url : String} {content : Content} {reply : ServerReply} :
    replyOf url content = .ok reply ↔ Usable content.body reply := by
  unfold replyOf Usable Content.json?
  cases hread : ((Text.Utf8.decode? content.body).bind Json.read).bind ServerReply.ofJson with
  | none => simp
  | some reply' =>
    by_cases hlist : (reply'.data.bind (·.endpoints)).isSome = true
    · simp only [if_pos hlist, Except.ok.injEq, Option.some.injEq]
      constructor
      · rintro rfl
        exact ⟨rfl, hlist⟩
      · rintro ⟨rfl, -⟩
        rfl
    · simp only [if_neg hlist, reduceCtorEq, Option.some.injEq, false_iff]
      rintro ⟨rfl, hsome⟩
      exact hlist hsome

variable {δ : Type} [DecidableEq δ] [Digest δ]

inductive Taken (c : ServerClient δ) (r : Option HttpResponse) :
    ServerClient δ × Except PanelError (Option ServerReply) → Prop
  | failed (e : PanelError)
      (useless : ∀ content reply, HttpResponse.carried r = some content →
        ¬Usable content.body reply) :
      Taken c r (c, .error e)
  | unchanged (resp : HttpResponse) (came : r = some resp)
      (same : resp.status = HttpResponse.notModified)
      (nothing : HttpResponse.carried r = none) : Taken c r (c, .ok none)
  | repeated (content : Content) (came : HttpResponse.carried r = some content)
      (same : c.digest = some (Digest.ofBody content.body)) : Taken c r (c, .ok none)
  | changed (content : Content) (reply : ServerReply) (came : HttpResponse.carried r = some content)
      (usable : Usable content.body reply)
      (new : c.digest ≠ some (Digest.ofBody content.body)) :
      Taken c r ({ c with etag := content.etag, digest := some (Digest.ofBody content.body) },
        .ok (some reply))

theorem take_taken (c : ServerClient δ) (r : Option HttpResponse) : Taken c r (c.take r) := by
  unfold take
  cases hcontent : HttpResponse.content c.url r with
  | error e =>
    refine .failed e fun content reply hcame => ?_
    rw [← HttpResponse.content_eq_some_iff (u := c.url), hcontent] at hcame
    cases hcame
  | ok o =>
    cases o with
    | none =>
      obtain ⟨resp, hr, hsame⟩ := HttpResponse.content_eq_none_iff.1 hcontent
      refine .unchanged resp hr hsame ?_
      rw [hr, HttpResponse.carried, Option.bind_some, if_pos (.inl hsame)]
    | some content =>
      have hcame := HttpResponse.content_eq_some_iff.1 hcontent
      dsimp only
      by_cases hsame : c.digest = some (Digest.ofBody content.body)
      · rw [if_pos hsame]
        exact .repeated content hcame hsame
      · rw [if_neg hsame]
        cases hreply : replyOf c.url content with
        | ok reply => exact .changed content reply hcame (replyOf_eq_ok_iff.1 hreply) hsame
        | error e =>
          refine .failed e fun content' reply hcame' husable => ?_
          obtain rfl : content = content' := Option.some.inj (hcame.symm.trans hcame')
          rw [replyOf_eq_ok_iff.2 husable] at hreply
          cases hreply

theorem take_eq_new_iff {c : ServerClient δ} {r : Option HttpResponse} {reply : ServerReply} :
    (c.take r).2 = .ok (some reply) ↔ ∃ content, HttpResponse.carried r = some content ∧
      Usable content.body reply ∧ c.digest ≠ some (Digest.ofBody content.body) := by
  have htaken := take_taken c r
  generalize c.take r = p at htaken ⊢
  cases htaken with
  | failed e useless =>
    simp only [reduceCtorEq, false_iff]
    rintro ⟨content, hcame, husable, -⟩
    exact useless content reply hcame husable
  | unchanged resp came same nothing => simp [nothing]
  | repeated content came same => simp [came, same]
  | changed content reply' came usable new =>
    simp only [Except.ok.injEq, Option.some.injEq, came, exists_eq_left']
    constructor
    · rintro rfl
      exact ⟨usable, new⟩
    · rintro ⟨husable, -⟩
      exact Option.some.inj (usable.1.symm.trans husable.1)

theorem take_eq_self {c : ServerClient δ} {r : Option HttpResponse}
    (h : ∀ reply, (c.take r).2 ≠ .ok (some reply)) : (c.take r).1 = c := by
  have htaken := take_taken c r
  generalize c.take r = p at htaken h ⊢
  cases htaken with
  | changed content reply => exact absurd rfl (h reply)
  | _ => rfl

def lastUsed (c : ServerClient δ) (last : Option (List UInt8)) (r : Option HttpResponse) :
    Option (List UInt8) :=
  match (c.take r).2 with
  | .ok (some _) => (HttpResponse.carried r).map (·.body)
  | _ => last

def polls (c : ServerClient δ) (last : Option (List UInt8)) :
    List (Option HttpResponse) → ServerClient δ × Option (List UInt8)
  | [] => (c, last)
  | r :: rs => polls (c.take r).1 (c.lastUsed last r) rs

def bodies (rs : List (Option HttpResponse)) : List (List UInt8) :=
  rs.filterMap fun r => (HttpResponse.carried r).map (·.body)

def DigestsDiffer (δ : Type) [Digest δ] (bs : List (List UInt8)) : Prop :=
  ∀ b ∈ bs, ∀ b' ∈ bs, (Digest.ofBody b : δ) = Digest.ofBody b' → b = b'

def bodyOf (c : Content) : Option (List UInt8) := some c.body

structure Remembers (c : ServerClient δ) (of : String → List UInt8) (last : Option (List UInt8)) :
    Prop where
  digest : c.digest = last.map Digest.ofBody
  version : ∀ v, c.etag = some v → last = some (of v)

variable {c : ServerClient δ} {of : String → List UInt8} {last : Option (List UInt8)}

theorem Remembers.take (h : c.Remembers of last) {r : Option HttpResponse}
    (hr : KeepsVersions bodyOf of r) : (c.take r).1.Remembers of (c.lastUsed last r) := by
  have htaken := take_taken c r
  unfold lastUsed
  generalize c.take r = p at htaken ⊢
  cases htaken with
  | failed => exact h
  | unchanged => exact h
  | repeated => exact h
  | changed content reply came usable new =>
    refine ⟨?_, fun v hv => ?_⟩
    · simp [came]
    · simp [came, hr content v content.body came hv rfl]

theorem lastUsed_mem {rs : List (Option HttpResponse)} {r : Option HttpResponse} (hr : r ∈ rs)
    (hlast : ∀ b, last = some b → b ∈ bodies rs) {b : List UInt8} (hb : c.lastUsed last r = some b) :
    b ∈ bodies rs := by
  unfold lastUsed at hb
  split at hb
  · exact List.mem_filterMap.2 ⟨r, hr, hb⟩
  · exact hlast b hb

theorem Remembers.polls {rs : List (Option HttpResponse)} (h : c.Remembers of last)
    (hrs : ∀ r ∈ rs, KeepsVersions bodyOf of r) :
    (c.polls last rs).1.Remembers of (c.polls last rs).2 := by
  induction rs generalizing c last with
  | nil => exact h
  | cons r rs ih =>
    exact ih (h.take (hrs r (List.mem_cons_self ..)))
      fun r' hr' => hrs r' (List.mem_cons_of_mem _ hr')

theorem polls_mem {all rs : List (Option HttpResponse)} (hrs : ∀ r ∈ rs, r ∈ all)
    (hlast : ∀ b, last = some b → b ∈ bodies all) :
    ∀ b, (c.polls last rs).2 = some b → b ∈ bodies all := by
  induction rs generalizing c last with
  | nil => exact hlast
  | cons r rs ih =>
    exact ih (fun r' hr' => hrs r' (List.mem_cons_of_mem _ hr'))
      fun b hb => lastUsed_mem (hrs r (List.mem_cons_self ..)) hlast hb

theorem Remembers.lastUsed_eq (h : c.Remembers of last) {r : Option HttpResponse}
    (hdigest : ∀ content, HttpResponse.carried r = some content →
      c.digest = some (Digest.ofBody content.body) → last = some content.body)
    {now : List UInt8} (answers : Answers bodyOf of c.etag now r) {answer : Option ServerReply}
    (hok : (c.take r).2 = .ok answer) : c.lastUsed last r = some now := by
  have htaken := take_taken c r
  unfold lastUsed
  generalize c.take r = p at htaken hok ⊢
  cases htaken with
  | failed => cases hok
  | unchanged resp came same nothing =>
    obtain ⟨v, hv, rfl⟩ := answers.unchanged resp came same
    exact h.version v hv
  | repeated content came same =>
    have hnow : content.body = now := answers.told content content.body came rfl
    exact hnow ▸ hdigest content came same
  | changed content reply came usable new =>
    have hnow : content.body = now := answers.told content content.body came rfl
    simp [came, hnow]

/--
A call reports a change just if a usable body comes that is not the one that was given on last. Any
other call leaves version and digest alone, and one without an error shows that the body that was
given on last is still the panel's.
-/
theorem change_detected (api : ApiSettings) {rs : List (Option HttpResponse)}
    {r : Option HttpResponse} {of : String → List UInt8}
    (versions : ∀ q ∈ rs, KeepsVersions bodyOf of q)
    (digests : DigestsDiffer δ (bodies (r :: rs))) :
    let c := ((ofSettings api : ServerClient δ).polls none rs).1
    let last := ((ofSettings api : ServerClient δ).polls none rs).2
    (∀ reply, (c.take r).2 = .ok (some reply) ↔ ∃ resp body, r = some resp ∧ resp.status ≠ 304 ∧
        ¬(400 ≤ resp.status ∧ resp.status < 600) ∧ resp.body = some body ∧ Usable body reply ∧
          last ≠ some body) ∧
      ((∀ reply, (c.take r).2 ≠ .ok (some reply)) → (c.take r).1 = c) ∧
      ∀ now, Answers bodyOf of c.etag now r → ∀ answer, (c.take r).2 = .ok answer →
        c.lastUsed last r = some now := by
  intro c last
  have hremembers : c.Remembers of last := Remembers.polls ⟨rfl, fun v hv => by cases hv⟩ versions
  have hmem : ∀ b, last = some b → b ∈ bodies (r :: rs) :=
    polls_mem (fun q hq => List.mem_cons_of_mem r hq) fun b hb => by cases hb
  -- digests tell the body that comes from the one that was given on last
  have hdigest : ∀ content, HttpResponse.carried r = some content →
      (c.digest = some (Digest.ofBody content.body) ↔ last = some content.body) := by
    intro content hcame
    have hbody : content.body ∈ bodies (r :: rs) :=
      List.mem_filterMap.2 ⟨r, List.mem_cons_self .., by rw [hcame]; rfl⟩
    rw [hremembers.digest]
    cases hlast : last with
    | none => simp
    | some b =>
      simp only [Option.map_some, Option.some.injEq]
      exact ⟨fun h => digests b (hmem b hlast) content.body hbody h, fun h => by rw [h]⟩
  refine ⟨fun reply => ?_, take_eq_self, fun now answers answer hok => ?_⟩
  · rw [take_eq_new_iff]
    constructor
    · rintro ⟨content, hcame, husable, hnew⟩
      rw [Ne, hdigest content hcame] at hnew
      obtain ⟨resp, hr, hstatus, hsuccess, body, hbody, rfl⟩ :=
        HttpResponse.carried_eq_some_iff.1 hcame
      exact ⟨resp, body, hr, hstatus, hsuccess, hbody, husable, hnew⟩
    · rintro ⟨resp, body, hr, hstatus, hsuccess, hbody, husable, hnew⟩
      have hcame : HttpResponse.carried r = some ⟨resp.etag, body⟩ :=
        HttpResponse.carried_eq_some_iff.2 ⟨resp, hr, hstatus, hsuccess, body, hbody, rfl⟩
      refine ⟨_, hcame, husable, ?_⟩
      rwa [Ne, hdigest _ hcame]
  · exact hremembers.lastUsed_eq (fun content hcame => (hdigest content hcame).1) answers hok

section ThreeBodies

structure Hex where
  digits : String
  deriving DecidableEq

def emptyList : List UInt8 := "\x7b\"data\":\x7b\"protocols\":[]\x7d\x7d".toUTF8.toList

def withTotal : List UInt8 := "\x7b\"data\":\x7b\"protocols\":[],\"total\":1\x7d\x7d".toUTF8.toList

def noData : List UInt8 := "\x7b\x7d".toUTF8.toList

instance : Digest Hex where
  ofBody b :=
    if b = emptyList then ⟨"6ec32bc7a9f92f4878ab7d0412a72abdad06cc5a5c5a24889906d8f34a6186e4"⟩
    else if b = withTotal then ⟨"52f294ef119a9a436a1e4830720b8fd06a44d5266ab6d9f813807fedc01310ff"⟩
    else ⟨"44136fa355b3678a1146ad16f7e8649e94fb4fc21fe77e8310c060f61caaff8a"⟩

def firstAnswers : List (Option HttpResponse) :=
  [some ⟨200, some "v1", some emptyList⟩, some ⟨304, none, some []⟩, none,
    some ⟨200, none, some emptyList⟩, some ⟨200, none, some noData⟩]

def hexPanel : ApiSettings := ⟨"http://p", 1, "secret", 30⟩

theorem second_body_detected :
    let c := ((ofSettings hexPanel : ServerClient Hex).polls none firstAnswers).1
    let last := ((ofSettings hexPanel : ServerClient Hex).polls none firstAnswers).2
    let r : Option HttpResponse := some ⟨200, some "v2", some withTotal⟩
    (∀ reply, (c.take r).2 = .ok (some reply) ↔ ∃ resp body, r = some resp ∧ resp.status ≠ 304 ∧
        ¬(400 ≤ resp.status ∧ resp.status < 600) ∧ resp.body = some body ∧ Usable body reply ∧
          last ≠ some body) ∧
      ((∀ reply, (c.take r).2 ≠ .ok (some reply)) → (c.take r).1 = c) ∧
      ∀ now, Answers bodyOf (fun _ => emptyList) c.etag now r → ∀ answer,
        (c.take r).2 = .ok answer → c.lastUsed last r = some now := by
  have hversions : ∀ q ∈ firstAnswers, KeepsVersions bodyOf (fun _ => emptyList) q := by
    intro q hq c v a hcame hv ha
    have hbodies : ∀ q ∈ firstAnswers, ∀ c ∈ HttpResponse.carried q,
        c.etag.isSome = true → c.body = emptyList := by decide +kernel
    cases ha
    exact hbodies q hq c hcame (by rw [hv]; rfl)
  have hdigests : DigestsDiffer Hex
      (bodies (some ⟨200, some "v2", some withTotal⟩ :: firstAnswers)) := by
    unfold DigestsDiffer
    decide +kernel
  exact change_detected hexPanel hversions hdigests

end ThreeBodies

end NodeAgent.ServerClient
