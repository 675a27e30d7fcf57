/-! Finite tables: association lists in which every key has one entry. The view is `find?`. -/

namespace NodeAgent

structure Table (κ ν : Type) where
  entries : List (κ × ν)
  nodup : (entries.map Prod.fst).Nodup

namespace Table

variable {κ ν μ : Type} [DecidableEq κ]

def empty : Table κ ν := ⟨[], List.nodup_nil⟩

instance : EmptyCollection (Table κ ν) := ⟨empty⟩
instance : Inhabited (Table κ ν) := ⟨empty⟩

omit [DecidableEq κ] in
@[ext] theorem ext {t s : Table κ ν} (h : t.entries = s.entries) : t = s := by
  cases t; cases s; simp_all

def lookup (k : κ) : List (κ × ν) → Option ν
  | [] => none
  | (k', v) :: r => if k' = k then some v else lookup k r

def find? (t : Table κ ν) (k : κ) : Option ν := lookup k t.entries

def contains (t : Table κ ν) (k : κ) : Bool := (t.find? k).isSome

def keys (t : Table κ ν) : List κ := t.entries.map Prod.fst

def values (t : Table κ ν) : List ν := t.entries.map Prod.snd

def size (t : Table κ ν) : Nat := t.entries.length

def isEmpty (t : Table κ ν) : Bool := t.entries.isEmpty

omit [DecidableEq κ] in
theorem nodup_filter {l : List (κ × ν)} (p : κ × ν → Bool) (h : (l.map Prod.fst).Nodup) :
    ((l.filter p).map Prod.fst).Nodup :=
  h.sublist (List.filter_sublist.map _)

def filter (t : Table κ ν) (p : κ → ν → Bool) : Table κ ν :=
  ⟨t.entries.filter fun e => p e.1 e.2, nodup_filter _ t.nodup⟩

def erase (t : Table κ ν) (k : κ) : Table κ ν :=
  t.filter fun k' _ => k' ≠ k

theorem notMem_keys_erase (t : Table κ ν) (k : κ) :
    k ∉ (t.erase k).entries.map Prod.fst := by
  simp [erase, filter]

def insert (t : Table κ ν) (k : κ) (v : ν) : Table κ ν :=
  ⟨(k, v) :: (t.erase k).entries,
    List.nodup_cons.2 ⟨t.notMem_keys_erase k, (t.erase k).nodup⟩⟩

def map (t : Table κ ν) (f : κ → ν → μ) : Table κ μ :=
  ⟨t.entries.map fun e => (e.1, f e.1 e.2), by
    rw [List.map_map]; exact t.nodup⟩

def modify (t : Table κ ν) (k : κ) (f : ν → ν) : Table κ ν :=
  t.map fun k' v => if k' = k then f v else v

def insertMany (t : Table κ ν) (l : List (κ × ν)) : Table κ ν :=
  l.foldl (fun t e => t.insert e.1 e.2) t

def eraseMany (t : Table κ ν) (l : List κ) : Table κ ν :=
  l.foldl erase t

/-- Of several entries with one key the last one counts. -/
def ofList (l : List (κ × ν)) : Table κ ν := insertMany ∅ l

end Table

end NodeAgent
