import NodeAgent.Certificate.Manager
import NodeAgent.Proofs.Except
import NodeAgent.Proofs.Table

/-!
A tree of files only grows where files are written and directories made, so that a path which leads
somewhere leads there still. Where a certificate manager has seen to its pair, both files are there.
-/

namespace NodeAgent

def FileNode.text? : FileNode → Option String
  | file text => some text
  | directory => none

namespace FileTree

variable {t t₁ t' : FileTree} {place : Location} {path : String}

structure Grows (t t' : FileTree) : Prop where
  workingDirectory : t'.workingDirectory = t.workingDirectory
  directory : ∀ place, t.node? place = some .directory → t'.node? place = some .directory
  present : ∀ place, (t.node? place).isSome → (t'.node? place).isSome

namespace Grows

theorem refl (t : FileTree) : Grows t t := ⟨rfl, fun _ h => h, fun _ h => h⟩

theorem trans (h : Grows t t₁) (h' : Grows t₁ t') : Grows t t' where
  workingDirectory := h'.workingDirectory.trans h.workingDirectory
  directory := fun place hplace => h'.directory place (h.directory place hplace)
  present := fun place hplace => h'.present place (h.present place hplace)

theorem node?_insert (hplace : place ≠ []) (node : FileNode) (q : Location) :
    node? { t with nodes := t.nodes.insert place node } q =
      if q = place then some node else t.node? q := by
  by_cases hq : q = place
  · rw [if_pos hq, node?, if_neg (hq ▸ hplace), hq, Table.find?_insert_self]
  · rw [if_neg hq, node?, node?, Table.find?_insert_of_ne _ _ hq]

theorem insert (hplace : place ≠ []) (other : t.node? place ≠ some .directory) (node : FileNode) :
    Grows t { t with nodes := t.nodes.insert place node } where
  workingDirectory := rfl
  directory := by
    intro q hq
    have hne : q ≠ place := fun h => other (h ▸ hq)
    rw [node?_insert hplace, if_neg hne, hq]
  present := by
    intro q hq
    rw [node?_insert hplace]
    split
    · rfl
    · exact hq

end Grows

def text? (t : FileTree) (place : Location) : Option String := (t.node? place).bind FileNode.text?

theorem text?_insert (hplace : place ≠ []) (node : FileNode) (q : Location) :
    text? { t with nodes := t.nodes.insert place node } q =
      if q = place then node.text? else t.text? q := by
  rw [text?, Grows.node?_insert hplace, apply_ite (Option.bind · FileNode.text?)]
  rfl

/-- Nothing has come but directories. -/
structure Spreads (t t' : FileTree) : Prop extends Grows t t' where
  texts : ∀ place, t'.text? place = t.text? place

theorem Spreads.refl (t : FileTree) : Spreads t t := ⟨.refl t, fun _ => rfl⟩

theorem Spreads.trans (h : Spreads t t₁) (h' : Spreads t₁ t') : Spreads t t' :=
  ⟨h.toGrows.trans h'.toGrows, fun place => (h'.texts place).trans (h.texts place)⟩

section Walk

def LeadsTo (t : FileTree) (path : String) (place : Location) : Prop :=
  t.walk (t.start path) (path.splitOn "/") = .ok place

def next (place : Location) (part : String) : Location :=
  if part = "" ∨ part = "." then place
  else if part = ".." then place.dropLast
  else place ++ [part]

/-- The place that the path names, whether or not there is a way to it. -/
def placeOf (t : FileTree) (path : String) : Location :=
  (path.splitOn "/").foldl next (t.start path)

theorem step_ok {part : String} {after : Location} (h : t.step place part = .ok after) :
    t.node? place = some .directory ∧ after = next place part := by
  rw [step] at h
  split at h
  · cases h
  · cases h
  next hnode =>
    refine ⟨hnode, ?_⟩
    rw [next]
    split at h
    next hstays => rw [if_pos hstays, Except.ok.inj h]
    next hmoves =>
      rw [if_neg hmoves]
      split at h
      next hup => rw [if_pos hup, Except.ok.inj h]
      next hdown =>
        split at h
        · cases h
        · rw [if_neg hdown, Except.ok.inj h]

theorem walk_ok {parts : List String} {last : Location} (h : t.walk place parts = .ok last) :
    last = parts.foldl next place := by
  induction parts generalizing place with
  | nil => exact (Except.ok.inj h).symm
  | cons part parts ih =>
    rw [walk, List.foldlM_cons] at h
    obtain ⟨after, hafter, hrest⟩ := exists_of_bind_eq_ok h
    rw [ih hrest, (step_ok hafter).2, List.foldl_cons]

theorem LeadsTo.eq (h : t.LeadsTo path place) : place = t.placeOf path := walk_ok h

theorem placeOf_eq (h : t'.workingDirectory = t.workingDirectory) (path : String) :
    t'.placeOf path = t.placeOf path := by
  rw [placeOf, start, h]
  rfl

def contents (t : FileTree) (path : String) : Option String := t.text? (t.placeOf path)

theorem Grows.step {part : String} {after : Location} (g : Grows t t')
    (h : t.step place part = .ok after) : t'.step place part = .ok after := by
  have hnode := (step_ok h).1
  rw [FileTree.step, hnode] at h
  rw [FileTree.step, g.directory place hnode]
  exact h

theorem Grows.walk {parts : List String} {last : Location} (g : Grows t t')
    (h : t.walk place parts = .ok last) : t'.walk place parts = .ok last := by
  induction parts generalizing place with
  | nil => exact h
  | cons part parts ih =>
    rw [FileTree.walk, List.foldlM_cons] at h ⊢
    obtain ⟨after, hafter, hrest⟩ := exists_of_bind_eq_ok h
    rw [g.step hafter]
    exact ih hrest

theorem walk_append (t : FileTree) (place : Location) (above : List String) (name : String) :
    t.walk place (above ++ [name]) = t.walk place above >>= (t.step · name) := by
  rw [walk, List.foldlM_append]
  simp only [List.foldlM_cons, List.foldlM_nil, bind_pure]
  rfl

theorem Grows.leadsTo (g : Grows t t') (h : t.LeadsTo path place) : t'.LeadsTo path place := by
  rw [LeadsTo, start, g.workingDirectory]
  exact g.walk h

theorem at?_ok_iff {node : FileNode} : t.at? path = .ok node ↔
    flaw? path = none ∧ ∃ place, t.LeadsTo path place ∧ t.node? place = some node := by
  rw [at?]
  cases flaw? path with
  | some e => simp
  | none =>
    refine ⟨fun h => ⟨rfl, ?_⟩, fun ⟨_, place, hwalk, hnode⟩ => ?_⟩
    · obtain ⟨place, hwalk, hplace⟩ := exists_of_bind_eq_ok h
      refine ⟨place, hwalk, ?_⟩
      cases hnode : t.node? place with
      | none =>
        rw [hnode] at hplace
        cases hplace
      | some found =>
        rw [hnode] at hplace
        cases hplace
        rfl
    · rw [LeadsTo] at hwalk
      simp only [hwalk, bind, Except.bind, hnode]

theorem exists?_iff : t.exists? path = true ↔ ∃ node, t.at? path = .ok node := by
  rw [exists?]
  cases t.at? path with
  | error e => simp [Except.toBool]
  | ok node => simp [Except.toBool]

theorem read_ok_iff {text : String} : t.read path = .ok text ↔ t.at? path = .ok (.file text) := by
  rw [read]
  cases t.at? path with
  | error e => simp [bind, Except.bind]
  | ok node => cases node <;> simp [bind, Except.bind]

theorem exists?_of_read {text : String} (h : t.read path = .ok text) : t.exists? path = true :=
  exists?_iff.2 ⟨_, read_ok_iff.1 h⟩

theorem contents_of_read {text : String} (h : t.read path = .ok text) :
    t.contents path = some text := by
  obtain ⟨-, place, hleads, hnode⟩ := at?_ok_iff.1 (read_ok_iff.1 h)
  rw [contents, ← hleads.eq, text?, hnode]
  rfl

theorem Spreads.contents (s : Spreads t t') (path : String) :
    t'.contents path = t.contents path := by
  rw [FileTree.contents, placeOf_eq s.workingDirectory, s.texts]
  rfl

theorem Grows.read {old text : String} (g : Grows t t') (h : t.read path = .ok old)
    (htext : t'.contents path = some text) : t'.read path = .ok text := by
  obtain ⟨hflaw, place, hleads, -⟩ := at?_ok_iff.1 (read_ok_iff.1 h)
  have hleads' := g.leadsTo hleads
  rw [FileTree.contents, ← hleads'.eq] at htext
  obtain ⟨node, hnode, hfile⟩ := Option.bind_eq_some_iff.1 htext
  cases node with
  | directory => cases hfile
  | file found =>
    cases hfile
    exact read_ok_iff.2 (at?_ok_iff.2 ⟨hflaw, place, hleads', hnode⟩)

theorem Spreads.read {text : String} (s : Spreads t t') (h : t.read path = .ok text) :
    t'.read path = .ok text :=
  s.toGrows.read h ((s.contents path).trans (contents_of_read h))

theorem Grows.exists? (g : Grows t t') (h : t.exists? path = true) : t'.exists? path = true := by
  obtain ⟨node, hnode⟩ := exists?_iff.1 h
  obtain ⟨hflaw, place, hleads, hplace⟩ := at?_ok_iff.1 hnode
  have hpresent := g.present place (by rw [hplace]; rfl)
  obtain ⟨node', hnode'⟩ := Option.isSome_iff_exists.1 hpresent
  exact exists?_iff.2 ⟨node', at?_ok_iff.2 ⟨hflaw, place, g.leadsTo hleads, hnode'⟩⟩

end Walk

section LastPart

theorem lastPart_name {directory : Location} {name : String} {slashed : Bool}
    (h : t.lastPart path = .ok (.name directory name slashed)) :
    flaw? path = none ∧ name ≠ "" ∧ name ≠ "." ∧ name ≠ ".." ∧
      t.node? directory = some .directory ∧
      (slashed = false → ∃ above, path.splitOn "/" = above ++ [name] ∧
        t.walk (t.start path) above = .ok directory) := by
  rw [lastPart] at h
  cases hflaw : flaw? path with
  | some e =>
    rw [hflaw] at h
    cases h
  | none =>
    rw [hflaw] at h
    dsimp only at h
    split at h
    · cases h
    next last above hparts =>
      obtain ⟨place, hwalk, h⟩ := exists_of_bind_eq_ok h
      obtain ⟨here, hhere, h⟩ := exists_of_bind_eq_ok h
      obtain ⟨hnode, hstay⟩ := step_ok hhere
      have hstay : here = place := hstay.trans (if_pos (.inr rfl))
      have hlast : last ≠ "" := by
        have hleft : (path.splitOn "/").reverse.dropWhile (· = "") ≠ [] := by
          rw [hparts]
          exact List.cons_ne_nil last above
        have hnot := List.head_dropWhile_not _ hleft
        simpa [hparts] using hnot
      split at h
      · cases h
      next hdots =>
        obtain ⟨rfl, rfl, rfl⟩ := LastPart.name.inj (Except.ok.inj h)
        obtain ⟨hdot, hdots⟩ := not_or.1 hdots
        refine ⟨rfl, hlast, hdot, hdots, hstay ▸ hnode,
          fun hslashed => ⟨above.reverse, ?_, hstay ▸ hwalk⟩⟩
        -- no slash follows, so that nothing was dropped
        have hall : (path.splitOn "/").reverse = last :: above := by
          rw [← hparts]
          cases hrev : (path.splitOn "/").reverse with
          | nil => rfl
          | cons first rest =>
            rw [hrev] at hslashed
            have hfirst : first ≠ "" := by simpa using hslashed
            exact (List.dropWhile_cons_of_neg (by simpa using hfirst)).symm
        rw [← List.reverse_reverse (path.splitOn "/"), hall, List.reverse_cons]

theorem step_name {directory place : Location} {name : String} (hempty : name ≠ "")
    (hdot : name ≠ ".") (hdots : name ≠ "..") (h : t.step directory name = .ok place) :
    place = directory ++ [name] := by
  rw [(step_ok h).2, next, if_neg (not_or.2 ⟨hempty, hdot⟩), if_neg hdots]

end LastPart

section Write

/-- What there is of a text that has broken off. -/
def CutFrom (part text : String) : Prop := part.toList <+: text.toList ∧ part ≠ text

/-- The file of the path holds the text, and the other files hold what they held. -/
structure Written (t t' : FileTree) (path text : String) : Prop extends Grows t t' where
  read : t'.read path = .ok text
  texts : ∀ place, t'.text? place = if place = t.placeOf path then some text else t.text? place

theorem Written.contents {text : String} (w : Written t t' path text) (other : String) :
    t'.contents other =
      if t.placeOf other = t.placeOf path then some text else t.contents other := by
  rw [FileTree.contents, placeOf_eq w.workingDirectory, w.texts]
  rfl

theorem Written.read_of_ne {text other old : String} (w : Written t t' path text)
    (h : t.read other = .ok old) (apart : t.placeOf other ≠ t.placeOf path) :
    t'.read other = .ok old := by
  apply w.toGrows.read h
  rw [w.contents, if_neg apart]
  exact contents_of_read h

theorem Spreads.written {text : String} (s : Spreads t t₁) (w : Written t₁ t' path text) :
    Written t t' path text where
  toGrows := s.toGrows.trans w.toGrows
  read := w.read
  texts := fun place => by rw [w.texts, placeOf_eq s.workingDirectory, s.texts]

theorem filePlace_ok (h : t.filePlace path = .ok place) :
    flaw? path = none ∧ place ≠ [] ∧ t.LeadsTo path place ∧ t.node? place ≠ some .directory := by
  rw [filePlace] at h
  obtain ⟨last, hlast, h⟩ := exists_of_bind_eq_ok h
  cases last with
  | dotted => cases h
  | name directory name slashed =>
    cases slashed with
    | true => cases h
    | false =>
      obtain ⟨hflaw, hempty, hdot, hdots, hdirectory, hpath⟩ := lastPart_name hlast
      obtain ⟨above, hsplit, hwalk⟩ := hpath rfl
      obtain ⟨here, hstep, h⟩ := exists_of_bind_eq_ok h
      have hleads : t.LeadsTo path here := by
        rw [LeadsTo, hsplit, walk_append]
        exact (congrArg (· >>= _) hwalk).trans hstep
      split at h
      · cases h
      next hother =>
        cases h
        refine ⟨hflaw, ?_, hleads, hother⟩
        rw [step_name hempty hdot hdots hstep]
        simp

theorem written_insert (h : t.filePlace path = .ok place) (text : String) :
    Written t { t with nodes := t.nodes.insert place (.file text) } path text := by
  obtain ⟨hflaw, hplace, hleads, hother⟩ := filePlace_ok h
  have hgrows : Grows t { t with nodes := t.nodes.insert place (.file text) } :=
    .insert hplace hother _
  have hnode : node? { t with nodes := t.nodes.insert place (.file text) } place = _ :=
    (Grows.node?_insert hplace _ place).trans (if_pos rfl)
  refine ⟨hgrows, read_ok_iff.2 (at?_ok_iff.2 ⟨hflaw, place, hgrows.leadsTo hleads, hnode⟩), ?_⟩
  rw [← hleads.eq]
  exact text?_insert hplace (.file text)

inductive Writing (t : FileTree) (path text : String) : FileTree × Except OsError Unit → Prop
  | written {t' : FileTree} (w : Written t t' path text) : Writing t path text (t', .ok ())
  | brokenOff {t' : FileTree} {part : String} (e : OsError) (cut : CutFrom part text)
      (w : Written t t' path part) : Writing t path text (t', .error e)
  | refused (e : OsError) : Writing t path text (t, .error e)

theorem writing (t : FileTree) (path text : String) : Writing t path text (t.write path text) := by
  rw [write]
  cases hplace : t.filePlace path with
  | error e => exact .refused e
  | ok place =>
    simp only [setText]
    split
    · exact .written (written_insert hplace text)
    next e _ => exact .refused e
    next e room _ =>
      split
      · exact .written (written_insert hplace text)
      next hlong =>
        refine .brokenOff e ⟨?_, fun hwhole => hlong ?_⟩ (written_insert hplace _)
        · rw [String.toList_ofList]
          exact List.take_prefix room text.toList
        · have hlength := congrArg String.length hwhole
          rw [String.length_ofList, List.length_take, String.length_toList] at hlength
          omega

end Write

theorem createDirectory_spreads (h : t.createDirectory path = .ok t') : Spreads t t' := by
  rw [createDirectory] at h
  obtain ⟨last, hlast, h⟩ := exists_of_bind_eq_ok h
  cases last with
  | dotted => cases h
  | name directory name slashed =>
    obtain ⟨-, hempty, hdot, hdots, -⟩ := lastPart_name hlast
    obtain ⟨place, hstep, h⟩ := exists_of_bind_eq_ok h
    have hplace : place ≠ [] := by
      rw [step_name hempty hdot hdots hstep]
      simp
    split at h
    · cases h
    · cases h
    next hnone _ =>
      obtain rfl := Except.ok.inj h
      refine ⟨.insert hplace (by rw [hnone]; nofun) _, fun q => ?_⟩
      rw [text?_insert hplace]
      split
      next hq =>
        rw [hq, text?, hnone]
        rfl
      · rfl

theorem ensureDirectory_spreads (t : FileTree) (path : String) :
    Spreads t (t.ensureDirectory path).1 := by
  rw [ensureDirectory]
  split
  next hcreate => exact createDirectory_spreads hcreate
  · exact .refl t

theorem createWay_spreads (t : FileTree) (parts : List String) :
    Spreads t (t.createWay parts).1 := by
  induction parts with
  | nil => exact .refl t
  | cons part above ih =>
    simp only [createWay]
    split
    · exact .refl t
    · split
      · split
        next hway =>
          rw [hway] at ih
          exact ih.trans (ensureDirectory_spreads _ _)
        · exact ih
      · exact ensureDirectory_spreads t _

end FileTree

namespace CertManager

variable {γ χ : Type} {files files' : FileTree} {path text : String}

theorem writeFile_cases (files : FileTree) (path text : String) :
    (writeFile files path text).2 = .ok () ∧
        files.Written (writeFile files path text).1 path text ∨
      (∃ e, (writeFile files path text).2 = .error e) ∧
        (files.Spreads (writeFile files path text).1 ∨
          ∃ part, FileTree.CutFrom part text ∧
            files.Written (writeFile files path text).1 path part) := by
  have hspreads := files.createWay_spreads ((FileTree.parentPath path).splitOn "/").reverse
  rw [writeFile]
  rcases hway : files.makeWay (FileTree.parentPath path) with ⟨files₁, e | ⟨⟩⟩ <;>
    rw [FileTree.makeWay] at hway <;> rw [hway] at hspreads
  · exact .inr ⟨⟨_, rfl⟩, .inl hspreads⟩
  · have hwriting := files₁.writing path text
    dsimp only
    generalize files₁.write path text = written at hwriting ⊢
    cases hwriting with
    | written w => exact .inl ⟨rfl, hspreads.written w⟩
    | brokenOff e cut w => exact .inr ⟨⟨_, rfl⟩, .inr ⟨_, cut, hspreads.written w⟩⟩
    | refused e => exact .inr ⟨⟨_, rfl⟩, .inl hspreads⟩

theorem writeFile_ok (h : writeFile files path text = (files', .ok ())) :
    files.Written files' path text := by
  rcases writeFile_cases files path text with ⟨-, hwritten⟩ | ⟨⟨e, herror⟩, -⟩
  · rwa [h] at hwritten
  · rw [h] at herror
    cases herror

theorem writeFile_error {e : CertError} (h : writeFile files path text = (files', .error e)) :
    files.Spreads files' ∨
      ∃ part, FileTree.CutFrom part text ∧ files.Written files' path part := by
  rcases writeFile_cases files path text with ⟨hok, -⟩ | ⟨-, hleft⟩
  · rw [h] at hok
    cases hok
  · rwa [h] at hleft

theorem writePair_ok {m : CertManager γ} {p : CertPair}
    (h : m.writePair p files = (files', .ok ())) : m.pairExists files' = true := by
  rw [writePair] at h
  split at h
  · cases (Prod.mk.inj h).2
  next files₁ hcert =>
    obtain ⟨-, hfirst, -⟩ := writeFile_ok hcert
    obtain ⟨hgrows, hsecond, -⟩ := writeFile_ok h
    rw [pairExists, hgrows.exists? (FileTree.exists?_of_read hfirst),
      FileTree.exists?_of_read hsecond]
    rfl

theorem store_ok {m : CertManager γ} {h₀ h₁ : Host χ} {pair : Except CertError CertPair}
    (h : m.store h₀ pair = (h₁, .ok ())) : m.pairExists h₁.files = true := by
  cases pair with
  | error e => cases (Prod.mk.inj h).2
  | ok p =>
    rw [store] at h
    rcases hwrite : m.writePair p h₀.files with ⟨files, r⟩
    rw [hwrite] at h
    obtain ⟨rfl, rfl⟩ := Prod.mk.inj h
    exact writePair_ok hwrite

theorem ensure_ok [CertClient γ χ] {m : CertManager γ} {h₀ h₁ : Host χ}
    (h : m.ensure h₀ = (h₁, .ok ())) (own : m.mode ≠ .none ∧ m.mode ≠ .file) :
    m.pairExists h₁.files = true := by
  have hthere : ∀ get : Host χ × Except CertError CertPair,
      (if m.pairExists h₀.files then (h₀, .ok ()) else m.store get.1 get.2) = (h₁, .ok ()) →
        m.pairExists h₁.files = true := by
    intro get hget
    split at hget
    next hpair =>
      obtain ⟨rfl, -⟩ := Prod.mk.inj hget
      exact hpair
    · exact store_ok hget
  rw [ensure] at h
  cases hmode : m.mode with
  | none => exact absurd hmode own.1
  | file => exact absurd hmode own.2
  | selfSigned =>
    rw [hmode] at h
    exact hthere _ h
  | http =>
    rw [hmode] at h
    exact hthere _ h
  | dns provider env =>
    rw [hmode] at h
    exact hthere _ h

end CertManager

end NodeAgent
