import NodeAgent.Proofs.Files
import NodeAgent.Scripted.Authority

/-!
The pair of files of a node when its renewal fails. The certificate is written first and nothing
takes it back, so that a key which cannot be written leaves a new certificate beside an old key. The
new certificate is not due for a long time, and so nobody tries again. A file that breaks off while
it is written is left as it is, too.
-/

namespace NodeAgent.CertManager

variable {γ χ : Type} {m : CertManager γ} {now : Int} {h h₁ h' : Host χ} {p : CertPair}

structure KeepsPair (m : CertManager γ) (h h' : Host χ) : Prop where
  workingDirectory : h'.files.workingDirectory = h.files.workingDirectory
  contents : ∀ path ∈ [m.paths.cert, m.paths.key], h'.files.contents path = h.files.contents path

theorem KeepsPair.refl (m : CertManager γ) (h : Host χ) : m.KeepsPair h h := ⟨rfl, fun _ _ => rfl⟩

theorem KeepsPair.trans (k : m.KeepsPair h h₁) (k' : m.KeepsPair h₁ h') :
    m.KeepsPair h h' where
  workingDirectory := k'.workingDirectory.trans k.workingDirectory
  contents := fun path hpath => (k'.contents path hpath).trans (k.contents path hpath)

theorem KeepsPair.of_spreads (s : h.files.Spreads h'.files) : m.KeepsPair h h' :=
  ⟨s.workingDirectory, fun path _ => s.contents path⟩

/-- To write again what was there changes nothing, even if both paths lead to one place. -/
theorem KeepsPair.of_written {path text : String} (k : m.KeepsPair h h₁)
    (w : h₁.files.Written h'.files path text) (same : h.files.contents path = some text) :
    m.KeepsPair h h' where
  workingDirectory := w.workingDirectory.trans k.workingDirectory
  contents := by
    intro other hother
    rw [w.contents, FileTree.placeOf_eq k.workingDirectory, FileTree.placeOf_eq k.workingDirectory]
    split
    next hplace => rw [← same, FileTree.contents, FileTree.contents, hplace]
    · exact k.contents other hother

theorem KeepsPair.of_one_place {files : FileTree} {cert key : String} (k : m.KeepsPair h h₁)
    (place : h.files.placeOf m.paths.key = h.files.placeOf m.paths.cert)
    (first : h₁.files.Written files m.paths.cert cert)
    (last : files.Written h'.files m.paths.key key)
    (same : h.files.contents m.paths.key = some key) : m.KeepsPair h h' where
  workingDirectory :=
    last.workingDirectory.trans (first.workingDirectory.trans k.workingDirectory)
  contents := by
    have hplaces := FileTree.placeOf_eq (first.workingDirectory.trans k.workingDirectory)
    intro other hother
    have hplace : h.files.placeOf other = h.files.placeOf m.paths.key := by
      rcases List.mem_cons.1 hother with rfl | hother
      · exact place.symm
      · rw [List.mem_singleton.1 hother]
    rw [last.contents, hplaces, hplaces, if_pos hplace, ← same, FileTree.contents,
      FileTree.contents, hplace]

variable [CertClient γ χ]

/-- A pair with another certificate was issued; the certificate is written, and the key is not. -/
def Torn (m : CertManager γ) (h h' : Host χ) (p : CertPair) : Prop :=
  ∃ existing files e, h.files.read m.paths.cert = .ok existing ∧ existing ≠ p.cert ∧
    (m.renew existing h).2 = .ok p ∧
    writeFile (m.renew existing h).1.files m.paths.cert p.cert = (files, .ok ()) ∧
    writeFile files m.paths.key p.key = (h'.files, .error e) ∧ files.Spreads h'.files

/-- A pair was issued, and one of its files has broken off, with other contents than before. -/
inductive Cut (m : CertManager γ) (h h' : Host χ) (p : CertPair) : Prop
  | cert {existing part : String} {e : CertError}
      (read : h.files.read m.paths.cert = .ok existing)
      (answer : (m.renew existing h).2 = .ok p)
      (write : writeFile (m.renew existing h).1.files m.paths.cert p.cert = (h'.files, .error e))
      (cut : FileTree.CutFrom part p.cert)
      (left : (m.renew existing h).1.files.Written h'.files m.paths.cert part)
      (other : existing ≠ part)
  | key {existing part : String} {files : FileTree} {e : CertError}
      (read : h.files.read m.paths.cert = .ok existing)
      (answer : (m.renew existing h).2 = .ok p)
      (cert : writeFile (m.renew existing h).1.files m.paths.cert p.cert = (files, .ok ()))
      (write : writeFile files m.paths.key p.key = (h'.files, .error e))
      (cut : FileTree.CutFrom part p.key) (left : files.Written h'.files m.paths.key part)
      (other : h.files.contents m.paths.key ≠ some part ∨
        existing ≠ p.cert ∧ h.files.placeOf m.paths.key ≠ h.files.placeOf m.paths.cert)

inductive Renewing (m : CertManager γ) (h : Host χ) : Host χ × Except CertError Bool → Prop
  | unasked (r : Except CertError Bool) : Renewing m h (h, r)
  | denied {existing : String} {e : CertError}
      (read : h.files.read m.paths.cert = .ok existing)
      (answer : (m.renew existing h).2 = .error e) :
      Renewing m h ((m.renew existing h).1, .error e)
  | unwritten {existing : String} {p : CertPair} {files : FileTree} {e : CertError}
      (read : h.files.read m.paths.cert = .ok existing)
      (answer : (m.renew existing h).2 = .ok p)
      (write : m.writePair p (m.renew existing h).1.files = (files, .error e)) :
      Renewing m h ({ (m.renew existing h).1 with files }, .error e)
  | renewed {existing : String} {p : CertPair} {files : FileTree}
      (read : h.files.read m.paths.cert = .ok existing)
      (answer : (m.renew existing h).2 = .ok p)
      (write : m.writePair p (m.renew existing h).1.files = (files, .ok ())) :
      Renewing m h ({ (m.renew existing h).1 with files }, .ok true)

theorem renewing (m : CertManager γ) (now : Int) (h : Host χ) :
    Renewing m h (m.renewIfDue now h) := by
  rw [renewIfDue]
  split
  · exact .unasked _
  · split
    · exact .unasked _
    next existing hread =>
      split
      · exact .unasked _
      · split
        · exact .unasked _
        · cases hanswer : (m.renew existing h).2 with
          | error e =>
            simp only [hanswer, store, Except.map]
            exact .denied hread hanswer
          | ok p =>
            simp only [hanswer, store]
            rcases hwrite : m.writePair p (m.renew existing h).1.files with ⟨files, e | u⟩
            · exact .unwritten hread hanswer hwrite
            · exact .renewed hread hanswer hwrite

theorem renewIfDue_unwritten {existing : String} {expiry : Int} {files : FileTree} {e : CertError}
    (acme : m.mode.isAcme = true) (hread : h.files.read m.paths.cert = .ok existing)
    (hexpiry : Certificate.readExpiry existing = .ok expiry)
    (hdue : Certificate.needsRenewal expiry now = true)
    (answer : (m.renew existing h).2 = .ok p)
    (hwrite : m.writePair p (m.renew existing h).1.files = (files, .error e)) :
    m.renewIfDue now h = ({ (m.renew existing h).1 with files }, .error e) := by
  simp only [renewIfDue, acme, hread, hexpiry, hdue, answer, store, hwrite, Bool.not_true,
    Bool.false_eq_true, if_false]
  rfl

theorem writePair_error {files files' : FileTree} {e : CertError}
    (h : m.writePair p files = (files', .error e)) :
    writeFile files m.paths.cert p.cert = (files', .error e) ∨
      ∃ files₁, writeFile files m.paths.cert p.cert = (files₁, .ok ()) ∧
        writeFile files₁ m.paths.key p.key = (files', .error e) := by
  rw [writePair] at h
  split at h
  next hcert =>
    obtain ⟨rfl, herror⟩ := Prod.mk.inj h
    cases herror
    exact .inl hcert
  next files₁ hcert => exact .inr ⟨files₁, hcert, h⟩

theorem renewIfDue_of_lasting {text : String} {expiry later : Int}
    (hread : h.files.read m.paths.cert = .ok text)
    (hexpiry : Certificate.readExpiry text = .ok expiry)
    (hlater : Certificate.needsRenewal expiry later = false) :
    m.renewIfDue later h = (h, .ok false) := by
  simp only [renewIfDue, hread, hexpiry, hlater, Bool.not_false, if_true, ite_self]

theorem renewIfDue_of_unreadable {text : String} {e : CertError} (later : Int)
    (acme : m.mode.isAcme = true) (hread : h.files.read m.paths.cert = .ok text)
    (hexpiry : Certificate.readExpiry text = .error e) :
    m.renewIfDue later h = (h, .error e) := by
  simp only [renewIfDue, acme, hread, hexpiry, Bool.not_true, Bool.false_eq_true, if_false]

theorem acme_of_failed {e : CertError} (failed : m.renewIfDue now h = (h', .error e)) :
    m.mode.isAcme = true := by
  by_contra hother
  rw [renewIfDue, if_pos (by simpa using hother)] at failed
  cases (Prod.mk.inj failed).2

namespace Torn

theorem read_cert (t : m.Torn h h' p) : h'.files.read m.paths.cert = .ok p.cert := by
  obtain ⟨existing, files, e, -, -, -, hcert, -, hspreads⟩ := t
  exact hspreads.read (writeFile_ok hcert).read

theorem not_keepsPair (t : m.Torn h h' p) : ¬m.KeepsPair h h' := by
  intro hkeeps
  have hnew := FileTree.contents_of_read t.read_cert
  obtain ⟨existing, -, -, hread, hother, -⟩ := t
  have hsame := hkeeps.contents m.paths.cert (List.mem_cons_self ..)
  rw [hnew, FileTree.contents_of_read hread] at hsame
  exact hother (Option.some.inj hsame).symm

theorem contents_key (t : m.Torn h h' p)
    (client : ∀ existing, m.KeepsPair h (m.renew existing h).1)
    (apart : h.files.placeOf m.paths.key ≠ h.files.placeOf m.paths.cert) :
    h'.files.contents m.paths.key = h.files.contents m.paths.key := by
  obtain ⟨existing, files, e, -, -, -, hcert, -, hspreads⟩ := t
  have hclient := client existing
  have hplace := FileTree.placeOf_eq hclient.workingDirectory
  rw [hspreads.contents, (writeFile_ok hcert).contents, hplace, hplace, if_neg apart]
  exact hclient.contents m.paths.key (by simp)

end Torn

namespace Cut

theorem leaves (c : m.Cut h h' p) (client : ∀ existing, m.KeepsPair h (m.renew existing h).1) :
    (∃ part, FileTree.CutFrom part p.cert ∧ h'.files.read m.paths.cert = .ok part ∧
        (h.files.placeOf m.paths.key ≠ h.files.placeOf m.paths.cert →
          h'.files.contents m.paths.key = h.files.contents m.paths.key)) ∨
      ∃ part, FileTree.CutFrom part p.key ∧ h'.files.read m.paths.key = .ok part ∧
        (h.files.placeOf m.paths.key ≠ h.files.placeOf m.paths.cert →
          h'.files.read m.paths.cert = .ok p.cert) := by
  cases c with
  | @cert existing part e read answer write cut left other =>
    have hclient := client existing
    have hplace := FileTree.placeOf_eq hclient.workingDirectory
    refine .inl ⟨part, cut, left.read, fun apart => ?_⟩
    rw [left.contents, hplace, hplace, if_neg apart]
    exact hclient.contents m.paths.key (by simp)
  | @key existing part files e read answer cert write cut left other =>
    have hcert := writeFile_ok cert
    have hplace := FileTree.placeOf_eq
      (hcert.workingDirectory.trans (client existing).workingDirectory)
    refine .inr ⟨part, cut, left.read, fun apart => left.read_of_ne hcert.read ?_⟩
    rw [hplace, hplace]
    exact apart.symm

theorem not_keepsPair (c : m.Cut h h' p)
    (client : ∀ existing, m.KeepsPair h (m.renew existing h).1) : ¬m.KeepsPair h h' := by
  intro hkeeps
  cases c with
  | @cert existing part e read answer write cut left other =>
    have hsame := hkeeps.contents m.paths.cert (List.mem_cons_self ..)
    rw [FileTree.contents_of_read left.read, FileTree.contents_of_read read] at hsame
    exact other (Option.some.inj hsame).symm
  | @key existing part files e read answer cert write cut left other =>
    rcases other with hkey | ⟨hother, hapart⟩
    · have hsame := hkeeps.contents m.paths.key (by simp)
      rw [FileTree.contents_of_read left.read] at hsame
      exact hkey hsame.symm
    · have hcert := writeFile_ok cert
      have hplace := FileTree.placeOf_eq
        (hcert.workingDirectory.trans (client existing).workingDirectory)
      have hread : h'.files.read m.paths.cert = .ok p.cert := by
        apply left.read_of_ne hcert.read
        rw [hplace, hplace]
        exact hapart.symm
      have hsame := hkeeps.contents m.paths.cert (List.mem_cons_self ..)
      rw [FileTree.contents_of_read hread, FileTree.contents_of_read read] at hsame
      exact hother (Option.some.inj hsame).symm

end Cut

theorem keepsPair_or_cut {existing : String} {files : FileTree} {e : CertError}
    (read : h.files.read m.paths.cert = .ok existing) (answer : (m.renew existing h).2 = .ok p)
    (client : m.KeepsPair h (m.renew existing h).1)
    (hcert : writeFile (m.renew existing h).1.files m.paths.cert p.cert = (files, .error e)) :
    m.KeepsPair h { (m.renew existing h).1 with files } ∨
      m.Cut h { (m.renew existing h).1 with files } p := by
  rcases writeFile_error hcert with hspreads | ⟨part, hcut, hleft⟩
  · exact .inl (client.trans (.of_spreads hspreads))
  · by_cases hother : existing = part
    · have hold := FileTree.contents_of_read read
      exact .inl (client.of_written hleft (hother ▸ hold))
    · exact .inr (.cert read answer hcert hcut hleft hother)

theorem keepsPair_or_torn {existing : String} {files files' : FileTree} {e : CertError}
    (read : h.files.read m.paths.cert = .ok existing) (answer : (m.renew existing h).2 = .ok p)
    (client : m.KeepsPair h (m.renew existing h).1)
    (hcert : writeFile (m.renew existing h).1.files m.paths.cert p.cert = (files, .ok ()))
    (hkey : writeFile files m.paths.key p.key = (files', .error e)) :
    m.KeepsPair h { (m.renew existing h).1 with files := files' } ∨
      m.Torn h { (m.renew existing h).1 with files := files' } p ∨
      m.Cut h { (m.renew existing h).1 with files := files' } p := by
  have hsame (hcert' : existing = p.cert) :
      m.KeepsPair h { (m.renew existing h).1 with files } := by
    have hold := FileTree.contents_of_read read
    exact client.of_written (writeFile_ok hcert) (hcert' ▸ hold)
  rcases writeFile_error hkey with hspreads | ⟨part, hcut, hleft⟩
  · by_cases hother : existing = p.cert
    · exact .inl ((hsame hother).trans (.of_spreads hspreads))
    · exact .inr (.inl ⟨existing, files, e, read, hother, answer, hcert, hkey, hspreads⟩)
  -- what is left of the new key may be all of the old one, as when that is empty
  · by_cases hkeyOld : h.files.contents m.paths.key = some part
    · by_cases hother : existing = p.cert
      · exact .inl ((hsame hother).of_written hleft hkeyOld)
      · by_cases hplace : h.files.placeOf m.paths.key = h.files.placeOf m.paths.cert
        · exact .inl (client.of_one_place hplace (writeFile_ok hcert) hleft hkeyOld)
        · exact .inr (.inr (.key read answer hcert hkey hcut hleft (.inr ⟨hother, hplace⟩)))
    · exact .inr (.inr (.key read answer hcert hkey hcut hleft (.inl hkeyOld)))

theorem keepsPair_of_whole {e : CertError} (failed : m.renewIfDue now h = (h', .error e))
    (client : ∀ existing, m.KeepsPair h (m.renew existing h).1)
    (whole : ∀ p, ¬m.Torn h h' p ∧ ¬m.Cut h h' p) : m.KeepsPair h h' := by
  have hend := renewing m now h
  rw [failed] at hend
  cases hend with
  | unasked => exact .refl m h
  | denied read answer => exact client _
  | @unwritten existing p files e read answer write =>
    rcases writePair_error write with hcert | ⟨files₁, hcert, hkey⟩
    · exact (keepsPair_or_cut read answer (client existing) hcert).resolve_right (whole p).2
    · exact (keepsPair_or_torn read answer (client existing) hcert hkey).resolve_right
        (not_or.2 (whole p))

/--
A renewal that fails leaves both files as they were, whether it was the old certificate, the client
or a file that failed, unless a pair with another certificate was issued and the key alone could not
be written, or one of the new files broke off. If the key could not be written, the node has the new
certificate beside the key that it had before, and no later check renews anything as long as the new
certificate lasts. A certificate that broke off and cannot be read any more is never renewed, either.
-/
theorem failed_renewal {e : CertError} (failed : m.renewIfDue now h = (h', .error e))
    (client : ∀ existing, m.KeepsPair h (m.renew existing h).1) :
    (m.KeepsPair h h' ↔ ∀ p, ¬m.Torn h h' p ∧ ¬m.Cut h h' p) ∧
      (∀ p, m.Torn h h' p →
        h'.files.read m.paths.cert = .ok p.cert ∧
        (h.files.placeOf m.paths.key ≠ h.files.placeOf m.paths.cert →
          h'.files.contents m.paths.key = h.files.contents m.paths.key) ∧
        ∀ expiry later, Certificate.readExpiry p.cert = .ok expiry →
          Certificate.needsRenewal expiry later = false →
          m.renewIfDue later h' = (h', .ok false)) ∧
      ∀ p, m.Cut h h' p →
        (∃ part, FileTree.CutFrom part p.cert ∧ h'.files.read m.paths.cert = .ok part ∧
          (h.files.placeOf m.paths.key ≠ h.files.placeOf m.paths.cert →
            h'.files.contents m.paths.key = h.files.contents m.paths.key) ∧
          ∀ e later, Certificate.readExpiry part = .error e →
            m.renewIfDue later h' = (h', .error e)) ∨
        ∃ part, FileTree.CutFrom part p.key ∧ h'.files.read m.paths.key = .ok part ∧
          (h.files.placeOf m.paths.key ≠ h.files.placeOf m.paths.cert →
            h'.files.read m.paths.cert = .ok p.cert ∧
            ∀ expiry later, Certificate.readExpiry p.cert = .ok expiry →
              Certificate.needsRenewal expiry later = false →
              m.renewIfDue later h' = (h', .ok false)) := by
  have hacme := acme_of_failed failed
  refine ⟨⟨fun hkeeps p => ?_, keepsPair_of_whole failed client⟩, fun p t => ?_, fun p c => ?_⟩
  · exact ⟨fun t => t.not_keepsPair hkeeps, fun c => c.not_keepsPair client hkeeps⟩
  · exact ⟨t.read_cert, t.contents_key client,
      fun expiry later => renewIfDue_of_lasting t.read_cert⟩
  · rcases c.leaves client with ⟨part, hcut, hread, hkey⟩ | ⟨part, hcut, hread, hcert⟩
    · exact .inl ⟨part, hcut, hread, hkey,
        fun e later => renewIfDue_of_unreadable later hacme hread⟩
    · exact .inr ⟨part, hcut, hread, fun hapart => ⟨hcert hapart,
        fun expiry later => renewIfDue_of_lasting (hcert hapart)⟩⟩

section Expired

/-- A certificate that lasts until February of the year 2001, or of 2049 with `"Q5"`. -/
def certificateUntil (year : String) : String :=
  "-----BEGIN CERTIFICATE-----\n" ++
  "MEUwOQIBETAEBgIqAzAAMB4XDTk5MDEwMTAwMDAwMFoXDT" ++ year ++ "MDIwMzA0MDUwNlow\n" ++
  "ADAKMAQGAioDAwIAATAEBgIqAwMCAAE=\n" ++
  "-----END CERTIFICATE-----\n"

theorem readExpiry_expired : Certificate.readExpiry (certificateUntil "Ax") = .ok 981173106 := by
  decide +kernel

theorem readExpiry_lasting : Certificate.readExpiry (certificateUntil "Q5") = .ok 2495937906 := by
  decide +kernel

theorem expired_ne_lasting : certificateUntil "Ax" ≠ certificateUntil "Q5" := by
  intro hsame
  have hexpiry := readExpiry_expired
  rw [hsame, readExpiry_lasting] at hexpiry
  cases hexpiry

theorem splitOn_letter {path : String} (hpath : path = "c" ∨ path = "k") :
    path.splitOn "/" = [path] := by
  rcases hpath with rfl | rfl
  all_goals
    rw [String.splitOn, if_neg (by decide +kernel)]
    rw [String.splitOnAux, if_neg (by decide +kernel), if_neg (by decide +kernel)]
    rw [String.splitOnAux, if_pos (by decide +kernel)]
    decide +kernel

theorem splitOn_empty : "".splitOn "/" = [""] := by
  rw [String.splitOn, if_neg (by decide +kernel), String.splitOnAux, if_pos (by decide +kernel)]
  decide +kernel

theorem parentPath_letter {path : String} (hpath : path = "c" ∨ path = "k") :
    FileTree.parentPath path = "" := by
  simp only [FileTree.parentPath, splitOn_letter hpath]
  rcases hpath with rfl | rfl <;> decide +kernel

theorem lastPart_letter {path : String} (hpath : path = "c" ∨ path = "k") {t : FileTree}
    (root : t.workingDirectory = []) : t.lastPart path = .ok (.name [] path false) := by
  simp only [FileTree.lastPart, splitOn_letter hpath, FileTree.start, root]
  rcases hpath with rfl | rfl <;> rfl

theorem writeFile_letter {path : String} (hpath : path = "c" ∨ path = "k") {t : FileTree}
    (root : t.workingDirectory = []) (text : String) : writeFile t path text =
      if t.node? [path] = some .directory then (t, .error (.io path .isDirectory))
      else ((t.setText [path] text).1, (t.setText [path] text).2.mapError (.io path)) := by
  have hway : t.makeWay "" = (t, .ok ()) := by
    rw [FileTree.makeWay, splitOn_empty]
    rfl
  have hstep : t.step [] path = .ok [path] := by
    rcases hpath with rfl | rfl <;> rfl
  have hplace : t.filePlace path =
      if t.node? [path] = some .directory then .error .isDirectory else .ok [path] := by
    simp only [FileTree.filePlace, lastPart_letter hpath root, bind, Except.bind, hstep]
    rcases t.node? [path] with _ | _ | _ <;> rfl
  simp only [writeFile, parentPath_letter hpath, hway, FileTree.write, hplace]
  by_cases hdirectory : t.node? [path] = some .directory
  · rw [if_pos hdirectory, if_pos hdirectory]
    rfl
  · rw [if_neg hdirectory, if_neg hdirectory]

def issuer : CertManager ScriptedAuthority where
  mode := .http
  domain := "n.e"
  paths := ⟨"c", "k"⟩
  client := some ⟨.ok ⟨"oc", "ok"⟩, .ok ⟨certificateUntil "Q5", "rk"⟩⟩

structure Expired (t : FileTree) : Prop where
  root : t.workingDirectory = []
  cert : t.node? ["c"] = some (.file (certificateUntil "Ax"))
  free : t.refusals.find? ["c"] = none

def withRenewedCert (t : FileTree) : FileTree :=
  { t with nodes := t.nodes.insert ["c"] (.file (certificateUntil "Q5")) }

namespace Expired

variable {h : Host (List AuthorityCall)} {files : FileTree} {e : OsError}

theorem read (x : Expired h.files) : h.files.read "c" = .ok (certificateUntil "Ax") := by
  have hleads : h.files.LeadsTo "c" ["c"] := by
    rw [FileTree.LeadsTo, splitOn_letter (.inl rfl), FileTree.start, x.root]
    rfl
  exact FileTree.read_ok_iff.2 (FileTree.at?_ok_iff.2 ⟨by decide +kernel, ["c"], hleads, x.cert⟩)

theorem writes (x : Expired h.files) :
    writeFile h.files "c" (certificateUntil "Q5") = (withRenewedCert h.files, .ok ()) := by
  rw [writeFile_letter (.inl rfl) x.root, if_neg (by rw [x.cert]; nofun), FileTree.setText, x.free]
  rfl

theorem renewIfDue_eq (x : Expired h.files)
    (key : writeFile (withRenewedCert h.files) "k" "rk" = (files, .error (.io "k" e))) :
    issuer.renewIfDue 1767225600 h =
      ({ (issuer.renew (certificateUntil "Ax") h).1 with files }, .error (.io "k" e)) := by
  have hpair : issuer.writePair ⟨certificateUntil "Q5", "rk"⟩ h.files =
      (files, .error (.io "k" e)) := by
    rw [writePair, show writeFile h.files issuer.paths.cert _ = _ from x.writes]
    exact key
  exact renewIfDue_unwritten rfl x.read readExpiry_expired (by decide) rfl hpair

end Expired

structure KeyRefused (t : FileTree) (e : OsError) : Prop extends Expired t where
  key : t.node? ["k"] = some .directory ∧ e = .isDirectory ∨
    t.node? ["k"] ≠ some .directory ∧ t.refusals.find? ["k"] = some { error := e }

namespace KeyRefused

variable {h : Host (List AuthorityCall)} {e : OsError}

theorem writes_key (k : KeyRefused h.files e) :
    writeFile (withRenewedCert h.files) "k" "rk" =
      (withRenewedCert h.files, .error (.io "k" e)) := by
  have hroot : (withRenewedCert h.files).workingDirectory = [] := k.root
  have hnode : (withRenewedCert h.files).node? ["k"] = h.files.node? ["k"] :=
    FileTree.Grows.node?_insert (by decide) _ ["k"]
  rw [writeFile_letter (.inr rfl) hroot, hnode]
  rcases k.key with ⟨hdirectory, rfl⟩ | ⟨hfile, hrefused⟩
  · rw [if_pos hdirectory]
  · have hrefused : (withRenewedCert h.files).refusals.find? ["k"] = some { error := e } := hrefused
    rw [if_neg hfile, FileTree.setText, hrefused]
    rfl

theorem torn (k : KeyRefused h.files e) : ∃ h',
    issuer.renewIfDue 1767225600 h = (h', .error (.io "k" e)) ∧
      issuer.Torn h h' ⟨certificateUntil "Q5", "rk"⟩ :=
  ⟨_, k.renewIfDue_eq k.writes_key, certificateUntil "Ax", _, .io "k" e, k.read,
    expired_ne_lasting, rfl, k.writes, k.writes_key, .refl _⟩

end KeyRefused

/-- A key that was mounted before it was there may have become a directory. -/
def keyDirectory : Host (List AuthorityCall) where
  files := { nodes := Table.ofList [(["c"], .file (certificateUntil "Ax")), (["k"], .directory),
    (["k", "x"], .file "1")] }
  outside := []

theorem keyDirectory_torn :
    issuer.mode.isAcme = true ∧ keyDirectory.files.read "c" = .ok (certificateUntil "Ax") ∧
      ∃ h', issuer.renewIfDue 1767225600 keyDirectory = (h', .error (.io "k" .isDirectory)) ∧
        h'.files.read "c" = .ok (certificateUntil "Q5") ∧
        h'.files.contents "c" ≠ keyDirectory.files.contents "c" := by
  have hkey : KeyRefused keyDirectory.files .isDirectory := ⟨⟨rfl, rfl, rfl⟩, .inl ⟨rfl, rfl⟩⟩
  obtain ⟨h', hrenew, htorn⟩ := hkey.torn
  refine ⟨rfl, hkey.read, h', hrenew, htorn.read_cert, fun hsame => ?_⟩
  have hnew : h'.files.contents "c" = some (certificateUntil "Q5") :=
    FileTree.contents_of_read htorn.read_cert
  rw [hnew, FileTree.contents_of_read hkey.read] at hsame
  exact expired_ne_lasting (Option.some.inj hsame).symm

def keyHeld (refusal : Refusal) : Host (List AuthorityCall) where
  files := {
    nodes := Table.ofList [(["c"], .file (certificateUntil "Ax")), (["k"], .file "old key")]
    refusals := Table.ofList [(["k"], refusal)] }
  outside := []

theorem keyHeld_expired (refusal : Refusal) : Expired (keyHeld refusal).files := ⟨rfl, rfl, rfl⟩

theorem placeOf_keyHeld {path : String} (hpath : path = "c" ∨ path = "k") (refusal : Refusal) :
    (keyHeld refusal).files.placeOf path = [path] := by
  rw [FileTree.placeOf, splitOn_letter hpath]
  rcases hpath with rfl | rfl <;> rfl

theorem keyHeld_apart (refusal : Refusal) :
    (keyHeld refusal).files.placeOf issuer.paths.key ≠
      (keyHeld refusal).files.placeOf issuer.paths.cert := by
  rw [show issuer.paths.key = "k" from rfl, show issuer.paths.cert = "c" from rfl,
    placeOf_keyHeld (.inl rfl), placeOf_keyHeld (.inr rfl)]
  decide

theorem contents_keyHeld (refusal : Refusal) :
    (keyHeld refusal).files.contents "k" = some "old key" := by
  rw [FileTree.contents, placeOf_keyHeld (.inr rfl)]
  rfl

theorem keyHeld_cut : ∃ h',
    issuer.renewIfDue 1767225600 (keyHeld ⟨.noSpace, some 1⟩) = (h', .error (.io "k" .noSpace)) ∧
      issuer.Cut (keyHeld ⟨.noSpace, some 1⟩) h' ⟨certificateUntil "Q5", "rk"⟩ ∧
      h'.files.read "k" = .ok "r" := by
  have hexpired := keyHeld_expired ⟨.noSpace, some 1⟩
  let files := withRenewedCert (keyHeld ⟨.noSpace, some 1⟩).files
  let files' : FileTree := { files with nodes := files.nodes.insert ["k"] (.file "r") }
  have hkey : writeFile files "k" "rk" = (files', .error (.io "k" .noSpace)) := by
    rw [writeFile_letter (.inr rfl) rfl, if_neg (by nofun)]
    rfl
  have htext : files'.text? ["k"] = some "r" := rfl
  have hplace : files.placeOf "k" = ["k"] := placeOf_keyHeld (.inr rfl) ⟨.noSpace, some 1⟩
  obtain ⟨part, hcut, hleft⟩ := (writeFile_error hkey).resolve_left fun hspreads => by
    have hold : files'.text? ["k"] = some "old key" := hspreads.texts ["k"]
    rw [htext] at hold
    exact absurd (Option.some.inj hold) (by decide)
  have hpart : part = "r" := by
    have hnew := hleft.texts ["k"]
    rw [htext, hplace, if_pos rfl] at hnew
    exact (Option.some.inj hnew).symm
  subst hpart
  refine ⟨_, hexpired.renewIfDue_eq hkey,
    .key hexpired.read rfl hexpired.writes hkey hcut hleft (.inl ?_), hleft.read⟩
  rw [show issuer.paths.key = "k" from rfl, contents_keyHeld]
  decide

/-- Nobody may write the key; or there is room for one character of it. -/
theorem keyHeld_torn :
    (∃ h', issuer.renewIfDue 1767225600 (keyHeld { error := .permissionDenied }) =
        (h', .error (.io "k" .permissionDenied)) ∧
      ¬issuer.KeepsPair (keyHeld { error := .permissionDenied }) h' ∧
      h'.files.read "c" = .ok (certificateUntil "Q5") ∧
      h'.files.contents "k" = some "old key" ∧
      issuer.renewIfDue 1767312000 h' = (h', .ok false)) ∧
    ∃ h', issuer.renewIfDue 1767225600 (keyHeld ⟨.noSpace, some 1⟩) =
        (h', .error (.io "k" .noSpace)) ∧
      ¬issuer.KeepsPair (keyHeld ⟨.noSpace, some 1⟩) h' ∧
      h'.files.read "k" = .ok "r" := by
  have hclient (refusal : Refusal) (existing : String) :
      issuer.KeepsPair (keyHeld refusal) (issuer.renew existing (keyHeld refusal)).1 :=
    ⟨rfl, fun _ _ => rfl⟩
  constructor
  · have hkey : KeyRefused (keyHeld { error := .permissionDenied }).files .permissionDenied :=
      ⟨keyHeld_expired _, .inr ⟨nofun, rfl⟩⟩
    obtain ⟨h', hrenew, htorn⟩ := hkey.torn
    obtain ⟨hkept, hafter, -⟩ := failed_renewal hrenew (hclient _)
    obtain ⟨hcert, holdKey, hidle⟩ := hafter _ htorn
    exact ⟨h', hrenew, fun hkeeps => (hkept.1 hkeeps _).1 htorn, hcert,
      (holdKey (keyHeld_apart _)).trans (contents_keyHeld _),
      hidle _ _ readExpiry_lasting (by decide)⟩
  · obtain ⟨h', hrenew, hcut, hread⟩ := keyHeld_cut
    obtain ⟨hkept, -⟩ := failed_renewal hrenew (hclient _)
    exact ⟨h', hrenew, fun hkeeps => (hkept.1 hkeeps _).2 hcut, hread⟩

end Expired

end NodeAgent.CertManager
