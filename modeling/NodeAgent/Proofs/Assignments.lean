import Mathlib.Data.List.Basic
import Mathlib.Data.List.TakeWhile
import NodeAgent.Certificate.Mode

/-!
The credentials of a DNS provider as text: assignments `key=value`, one on a line, among lines that
say nothing. What was assigned is what is read, and nothing else can be read from any text.
-/

namespace NodeAgent

namespace Text

def StartsBare (s : List Char) : Prop := ∀ c ∈ s.head?, isBlank c = false

def EndsBare (s : List Char) : Prop := ∀ c ∈ s.getLast?, isBlank c = false

instance : DecidablePred StartsBare := fun s =>
  decidable_of_iff (s.head?.all (!isBlank ·) = true) (by simp [StartsBare, Option.all_eq_true])

instance : DecidablePred EndsBare := fun s =>
  decidable_of_iff (s.getLast?.all (!isBlank ·) = true) (by simp [EndsBare, Option.all_eq_true])

variable {s part line : List Char} {c sep : Char}

section Trim

theorem endsBare_iff_reverse : EndsBare s ↔ StartsBare s.reverse := by
  rw [EndsBare, StartsBare, List.head?_reverse]

theorem trimEnd_eq_reverse (s : List Char) : trimEnd s = (trimStart s.reverse).reverse := rfl

theorem trimStart_of_startsBare (h : StartsBare s) : trimStart s = s := by
  cases s with
  | nil => rfl
  | cons c r =>
    have hc : ¬isBlank c = true := by simp [h c rfl]
    exact List.dropWhile_cons_of_neg hc

theorem startsBare_trimStart (s : List Char) : StartsBare (trimStart s) := by
  intro c hc
  have hhead := List.head?_dropWhile_not isBlank s
  rw [trimStart] at hc
  rw [Option.mem_def.1 hc] at hhead
  exact hhead

theorem trimEnd_of_endsBare (h : EndsBare s) : trimEnd s = s := by
  rw [trimEnd_eq_reverse, trimStart_of_startsBare (endsBare_iff_reverse.1 h), List.reverse_reverse]

theorem endsBare_trimEnd (s : List Char) : EndsBare (trimEnd s) := by
  rw [endsBare_iff_reverse, trimEnd_eq_reverse, List.reverse_reverse]
  exact startsBare_trimStart s.reverse

theorem trimEnd_prefix_self (s : List Char) : trimEnd s <+: s := by
  have hsuffix : (trimStart s.reverse).reverse <+: s.reverse.reverse :=
    List.reverse_prefix.2 (List.dropWhile_suffix isBlank)
  rwa [List.reverse_reverse] at hsuffix

theorem StartsBare.trimEnd (h : StartsBare s) : StartsBare (trimEnd s) := by
  obtain ⟨rest, hrest⟩ := trimEnd_prefix_self s
  cases hs : Text.trimEnd s with
  | nil => nofun
  | cons c r =>
    rw [hs] at hrest
    rw [← hrest] at h
    exact h

theorem startsBare_trim (s : List Char) : StartsBare (trim s) := (startsBare_trimStart s).trimEnd

theorem endsBare_trim (s : List Char) : EndsBare (trim s) := endsBare_trimEnd _

theorem trim_of_bare (hstart : StartsBare s) (hend : EndsBare s) : trim s = s := by
  rw [trim, trimStart_of_startsBare hstart, trimEnd_of_endsBare hend]

theorem trim_sublist (s : List Char) : (trim s).Sublist s :=
  (trimEnd_prefix_self _).sublist.trans (List.dropWhile_suffix isBlank).sublist

theorem trim_concat_blank (s : List Char) (h : isBlank c = true) : trim (s ++ [c]) = trim s := by
  have hend (t : List Char) : trimEnd (t ++ [c]) = trimEnd t := by
    rw [trimEnd_eq_reverse, List.reverse_concat, trimStart, List.dropWhile_cons_of_pos h]
    rfl
  rw [trim, trim, trimStart, trimStart, List.dropWhile_append]
  split
  next hempty =>
    have hrest : [c].dropWhile isBlank = [] := List.dropWhile_cons_of_pos h
    rw [hrest, List.isEmpty_iff.1 hempty]
  · exact hend _

end Trim

section SplitOnce

theorem splitOnce_append (rest : List Char) (h : sep ∉ part) :
    splitOnce sep (part ++ sep :: rest) = some (part, rest) := by
  induction part with
  | nil => exact if_pos rfl
  | cons c part ih =>
    obtain ⟨hc, hpart⟩ := not_or.1 (List.mem_cons.not.1 h)
    rw [List.cons_append, splitOnce, if_neg (Ne.symm hc), ih hpart]
    rfl

theorem splitOnce_eq_none (h : sep ∉ s) : splitOnce sep s = none := by
  induction s with
  | nil => rfl
  | cons c s ih =>
    obtain ⟨hc, hs⟩ := not_or.1 (List.mem_cons.not.1 h)
    rw [splitOnce, if_neg (Ne.symm hc), ih hs]
    rfl

theorem splitOnce_eq_some {rest : List Char} (h : splitOnce sep s = some (part, rest)) :
    s = part ++ sep :: rest ∧ sep ∉ part := by
  induction s generalizing part with
  | nil => cases h
  | cons c s ih =>
    rw [splitOnce] at h
    split at h
    next hc =>
      obtain ⟨rfl, rfl⟩ := Prod.mk.inj (Option.some.inj h)
      exact ⟨by rw [hc]; rfl, List.not_mem_nil⟩
    next hc =>
      obtain ⟨⟨before, after⟩, hsplit, heq⟩ := Option.map_eq_some_iff.1 h
      obtain ⟨rfl, rfl⟩ := Prod.mk.inj heq
      obtain ⟨rfl, hbefore⟩ := ih hsplit
      exact ⟨rfl, List.not_mem_cons_of_ne_of_not_mem (Ne.symm hc) hbefore⟩

end SplitOnce

section Lines

theorem splitAt_ne_nil (sep : Char) (s : List Char) : splitAt sep s ≠ [] := by
  cases s with
  | nil => exact List.cons_ne_nil [] []
  | cons c s =>
    rw [splitAt]
    split
    · exact List.cons_ne_nil [c] []
    · split <;> exact List.cons_ne_nil _ _

theorem splitAt_of_notMem (h : sep ∉ part) : splitAt sep part = [part] := by
  induction part with
  | nil => rfl
  | cons c part ih =>
    obtain ⟨hc, hpart⟩ := not_or.1 (List.mem_cons.not.1 h)
    simp only [splitAt, ih hpart, if_neg (Ne.symm hc)]

theorem splitAt_append (rest : List Char) (h : sep ∉ part) :
    splitAt sep (part ++ sep :: rest) = part :: splitAt sep rest := by
  induction part with
  | nil =>
    cases hrest : splitAt sep rest with
    | nil => exact absurd hrest (splitAt_ne_nil sep rest)
    | cons first others => simp only [List.nil_append, splitAt, hrest, if_pos]
  | cons c part ih =>
    obtain ⟨hc, hpart⟩ := not_or.1 (List.mem_cons.not.1 h)
    simp only [List.cons_append, splitAt, ih hpart, if_neg (Ne.symm hc)]

theorem notMem_of_mem_splitAt (h : part ∈ splitAt sep s) : sep ∉ part := by
  induction s generalizing part with
  | nil =>
    rw [List.mem_singleton.1 h]
    exact List.not_mem_nil
  | cons c s ih =>
    rw [splitAt] at h
    split at h
    next hnil => exact absurd hnil (splitAt_ne_nil sep s)
    next first others hsplit =>
      rw [hsplit] at ih
      split at h
      next hc =>
        rcases List.mem_cons.1 h with rfl | hmem
        · exact List.not_mem_nil
        · exact ih hmem
      next hc =>
        rcases List.mem_cons.1 h with rfl | hmem
        · exact List.not_mem_cons_of_ne_of_not_mem (Ne.symm hc) (ih List.mem_cons_self)
        · exact ih (List.mem_cons_of_mem _ hmem)

theorem dropReturn_sublist (line : List Char) : (dropReturn line).Sublist line := by
  unfold dropReturn
  split
  · exact List.dropLast_sublist line
  · exact List.Sublist.refl line

theorem trim_dropReturn (line : List Char) : trim (dropReturn line) = trim line := by
  unfold dropReturn
  split
  next hlast =>
    obtain ⟨before, rfl⟩ := List.getLast?_eq_some_iff.1 hlast
    rw [List.dropLast_concat, trim_concat_blank before rfl]
  · rfl

theorem lines_of_notMem (h : '\n' ∉ line) : lines line = if line.isEmpty then [] else [line] := by
  rw [lines, splitAt_of_notMem h]
  rfl

theorem lines_append (rest : List Char) (h : '\n' ∉ line) :
    lines (line ++ '\n' :: rest) = dropReturn line :: lines rest := by
  rw [lines, lines, splitAt_append rest h, List.reverse_cons]
  cases hrest : (splitAt '\n' rest).reverse with
  | nil => exact absurd (List.reverse_eq_nil_iff.1 hrest) (splitAt_ne_nil _ rest)
  | cons final before => simp

theorem newline_notMem_of_mem_lines (h : line ∈ lines s) : '\n' ∉ line := by
  have hparts (part : List Char) (hpart : part ∈ (splitAt '\n' s).reverse) : '\n' ∉ part :=
    notMem_of_mem_splitAt (List.mem_reverse.1 hpart)
  rw [lines] at h
  split at h
  · cases h
  next final before hsplit =>
    rw [hsplit] at hparts
    rcases List.mem_append.1 h with hbefore | hfinal
    · obtain ⟨part, hpart, rfl⟩ := List.mem_map.1 hbefore
      have hclean := hparts part (List.mem_cons_of_mem _ (List.mem_reverse.1 hpart))
      exact fun hmem => hclean ((dropReturn_sublist part).subset hmem)
    · split at hfinal
      · cases hfinal
      · rw [List.mem_singleton.1 hfinal]
        exact hparts final List.mem_cons_self

end Lines

end Text

open Text

@[mk_iff]
structure Assignable (pair : String × String) : Prop where
  key_ne_empty : pair.1 ≠ ""
  equals_notMem_key : '=' ∉ pair.1.toList
  newline_notMem_key : '\n' ∉ pair.1.toList
  key_startsBare : StartsBare pair.1.toList
  key_endsBare : EndsBare pair.1.toList
  newline_notMem_value : '\n' ∉ pair.2.toList
  value_endsBare : EndsBare pair.2.toList

instance : DecidablePred Assignable := fun pair => decidable_of_iff' _ (assignable_iff pair)

def SaysNothing (line : List Char) : Prop :=
  '\n' ∉ line ∧ ((∀ c ∈ line, isBlank c = true) ∨ '=' ∉ line ∨
    ∃ blanks value, (∀ c ∈ blanks, isBlank c = true) ∧ line = blanks ++ '=' :: value)

inductive EnvEntry
  | assignment (key value : String)
  | remark (text : String)
  deriving DecidableEq, Repr

namespace EnvEntry

def line : EnvEntry → List Char
  | assignment key value => key.toList ++ '=' :: value.toList
  | remark text => text.toList

def assigned? : EnvEntry → Option (String × String)
  | assignment key value => some (key, value)
  | remark _ => none

end EnvEntry

theorem Assignable.newline_notMem_line {key value : String} (h : Assignable (key, value)) :
    '\n' ∉ (EnvEntry.assignment key value).line := by
  intro hmem
  rcases List.mem_append.1 hmem with hkey | hvalue
  · exact h.newline_notMem_key hkey
  · rcases List.mem_cons.1 hvalue with hequals | hvalue
    · cases hequals
    · exact h.newline_notMem_value hvalue

inductive LineEnding
  | lf
  | crlf
  deriving DecidableEq, Repr

def LineEnding.text : LineEnding → List Char
  | lf => ['\n']
  | crlf => ['\r', '\n']

/-- The lines of a text with their endings. The last one has none; it may be empty. -/
structure EnvText where
  ended : List (EnvEntry × LineEnding)
  last : EnvEntry
  deriving DecidableEq, Repr

namespace EnvText

def entries (t : EnvText) : List EnvEntry := t.ended.map Prod.fst ++ [t.last]

def text (t : EnvText) : String :=
  String.ofList ((t.ended.flatMap fun l => l.1.line ++ l.2.text) ++ t.last.line)

end EnvText

namespace CertMode

variable {line : List Char}

theorem dnsCredential?_of_trim {s : List Char} (h : trim line = trim s) :
    dnsCredential? line = dnsCredential? s := by
  rw [dnsCredential?, dnsCredential?, h]

theorem dnsCredential?_assignment {key value : String} (h : Assignable (key, value)) :
    dnsCredential? (EnvEntry.assignment key value).line = some (key, value) := by
  have hkey : key.toList ≠ [] := fun hempty => h.key_ne_empty (String.toList_eq_nil_iff.1 hempty)
  have hstart : StartsBare (key.toList ++ '=' :: value.toList) := by
    rw [StartsBare, List.head?_append_of_ne_nil _ hkey]
    exact h.key_startsBare
  have hend : EndsBare (key.toList ++ '=' :: value.toList) := by
    rw [EndsBare, List.getLast?_append_cons]
    cases hvalue : value.toList with
    | nil => intro c hc; cases hc; rfl
    | cons c r =>
      rw [List.getLast?_cons_cons, ← hvalue]
      exact h.value_endsBare
  rw [EnvEntry.line, dnsCredential?, trim_of_bare hstart hend,
    splitOnce_append value.toList h.equals_notMem_key]
  simp [trim_of_bare h.key_startsBare h.key_endsBare, hkey]

theorem dnsCredential?_of_saysNothing (h : SaysNothing line) :
    dnsCredential? line = Option.none := by
  have hsilent (hline : '=' ∉ line) : dnsCredential? line = Option.none := by
    rw [dnsCredential?, splitOnce_eq_none fun hmem => hline ((trim_sublist line).subset hmem)]
  obtain ⟨-, hblank | hequals | ⟨blanks, value, hblanks, rfl⟩⟩ := h
  · exact hsilent fun hmem => Bool.false_ne_true (hblank '=' hmem)
  · exact hsilent hequals
  · -- the blanks before the sign go when the line is trimmed, and leave no key
    have hstart : trimStart (blanks ++ '=' :: value) = '=' :: value := by
      rw [trimStart, List.dropWhile_append_of_pos hblanks]
      rfl
    obtain ⟨rest, hrest⟩ := trimEnd_prefix_self ('=' :: value)
    rw [dnsCredential?, trim, hstart]
    cases hshort : trimEnd ('=' :: value) with
    | nil => rfl
    | cons c after =>
      rw [hshort] at hrest
      rw [(List.cons.inj hrest).1]
      rfl

theorem assignable_of_dnsCredential? {pair : String × String} (hline : '\n' ∉ line)
    (h : dnsCredential? line = some pair) : Assignable pair := by
  rw [dnsCredential?] at h
  split at h
  next key value hsplit =>
    obtain ⟨htrim, hequals⟩ := splitOnce_eq_some hsplit
    have hmem (c : Char) (hc : c ∈ key ∨ c ∈ value) : c ∈ line := by
      apply (trim_sublist line).subset
      rw [htrim]
      rcases hc with hc | hc
      · exact List.mem_append_left _ hc
      · exact List.mem_append_right _ (List.mem_cons_of_mem _ hc)
    have hvalue : EndsBare value := by
      have hend := endsBare_trim line
      rw [htrim, EndsBare, List.getLast?_append_cons] at hend
      exact fun c hc => hend c (List.mem_getLast?_cons hc)
    dsimp only at h
    split at h
    · cases h
    next hkey =>
      obtain rfl := Option.some.inj h
      have hsub := (trim_sublist key).subset
      refine ⟨?_, ?_, ?_, ?_, ?_, ?_, ?_⟩ <;> simp only [String.toList_ofList]
      · exact fun hempty => hkey (by simpa using hempty)
      · exact fun hc => hequals (hsub hc)
      · exact fun hc => hline (hmem _ (.inl (hsub hc)))
      · exact startsBare_trim key
      · exact endsBare_trim key
      · exact fun hc => hline (hmem _ (.inr hc))
      · exact hvalue
  · cases h

theorem filterMap_lines_of_last (h : '\n' ∉ line) :
    (lines line).filterMap dnsCredential? = (dnsCredential? line).toList := by
  cases line with
  | nil => rfl
  | cons c r =>
    rw [lines_of_notMem h]
    cases hread : dnsCredential? (c :: r) <;> simp [hread]

theorem filterMap_lines_of_ended (ending : LineEnding) (rest : List Char) (h : '\n' ∉ line) :
    (lines (line ++ ending.text ++ rest)).filterMap dnsCredential? =
      (dnsCredential? line).toList ++ (lines rest).filterMap dnsCredential? := by
  have hread (s : List Char) (hs : '\n' ∉ s) (htrim : trim s = trim line) :
      (lines (s ++ '\n' :: rest)).filterMap dnsCredential? =
        (dnsCredential? line).toList ++ (lines rest).filterMap dnsCredential? := by
    rw [lines_append rest hs, ← dnsCredential?_of_trim ((trim_dropReturn s).trans htrim)]
    cases hline : dnsCredential? (dropReturn s) <;> simp [hline]
  cases ending with
  | lf => simpa [LineEnding.text] using hread line h rfl
  | crlf =>
    have hreturn : '\n' ∉ line ++ ['\r'] := by simpa using h
    simpa [LineEnding.text] using hread (line ++ ['\r']) hreturn (trim_concat_blank line rfl)

theorem dnsCredentials_text {t : EnvText}
    (h : ∀ e ∈ t.entries, '\n' ∉ e.line ∧ dnsCredential? e.line = e.assigned?) :
    dnsCredentials t.text = t.entries.filterMap EnvEntry.assigned? := by
  obtain ⟨ended, last⟩ := t
  rw [dnsCredentials, EnvText.text, String.toList_ofList]
  induction ended with
  | nil =>
    obtain ⟨hclean, hread⟩ := h last (List.mem_singleton_self _)
    rw [List.flatMap_nil, List.nil_append, filterMap_lines_of_last hclean, hread]
    cases hassigned : last.assigned? <;> simp [EnvText.entries, hassigned]
  | cons l ended ih =>
    obtain ⟨hclean, hread⟩ := h l.1 List.mem_cons_self
    have hrest := ih fun e he => h e (List.mem_cons_of_mem _ he)
    simp only [List.flatMap_cons, List.append_assoc] at hrest ⊢
    rw [← List.append_assoc, filterMap_lines_of_ended l.2 _ hclean, hrest, hread]
    cases hassigned : l.1.assigned? <;> simp [EnvText.entries, hassigned]

/--
A text gives back exactly the pairs that are assigned in it, in their order, whatever its line
endings are and whatever lines that say nothing stand between. Of any text, only pairs come that can
be assigned and read again: none has an empty key, or one with `=` or with blanks around it.
-/
theorem credentials_read_back :
    (∀ (t : EnvText) (pairs : List (String × String)),
      t.entries.filterMap EnvEntry.assigned? = pairs → (∀ pair ∈ pairs, Assignable pair) →
        (∀ text, .remark text ∈ t.entries → SaysNothing text.toList) →
          dnsCredentials t.text = pairs) ∧
      ∀ raw, ∀ pair ∈ dnsCredentials raw, Assignable pair := by
  constructor
  · intro t pairs hpairs hassignable hremarks
    rw [← hpairs] at hassignable ⊢
    apply dnsCredentials_text
    intro e he
    cases e with
    | assignment key value =>
      have hpair : Assignable (key, value) := hassignable _ (List.mem_filterMap.2 ⟨_, he, rfl⟩)
      exact ⟨hpair.newline_notMem_line, dnsCredential?_assignment hpair⟩
    | remark text => exact ⟨(hremarks text he).1, dnsCredential?_of_saysNothing (hremarks text he)⟩
  · intro raw pair hpair
    obtain ⟨line, hline, hread⟩ := List.mem_filterMap.1 hpair
    exact assignable_of_dnsCredential? (newline_notMem_of_mem_lines hline) hread

section Cloudflare

def cloudflare : EnvText where
  ended := [(.assignment "CF_API_TOKEN" "abc=def", .crlf), (.remark "invalid", .lf),
    (.remark "", .crlf), (.remark " = x", .lf)]
  last := .assignment "CF_ZONE" " z"

theorem cloudflare_read_back :
    cloudflare.text = "CF_API_TOKEN=abc=def\r\ninvalid\n\r\n = x\nCF_ZONE= z" ∧
      dnsCredentials cloudflare.text = [("CF_API_TOKEN", "abc=def"), ("CF_ZONE", " z")] := by
  refine ⟨rfl, credentials_read_back.1 cloudflare _ rfl (by decide) fun text htext => ?_⟩
  simp only [EnvText.entries, cloudflare, List.map_cons, List.map_nil, List.mem_append,
    List.mem_cons, EnvEntry.remark.injEq, reduceCtorEq, false_or, or_false, List.not_mem_nil]
    at htext
  rcases htext with rfl | rfl | rfl
  · exact ⟨by decide, .inr (.inl (by decide))⟩
  · exact ⟨by decide, .inl (List.forall_mem_nil _)⟩
  · exact ⟨by decide, .inr (.inr ⟨[' '], [' ', 'x'], List.forall_mem_singleton.2 rfl, rfl⟩)⟩

end Cloudflare

end CertMode

end NodeAgent
