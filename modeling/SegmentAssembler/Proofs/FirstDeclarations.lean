import SegmentAssembler.Proofs.CapitalForms
import SegmentAssembler.Proofs.Declarations

/-!
# The first declaration stands

A table of names is filled by requests, one after another: each asks for a name
with a symbol, in any letters.  The table grants a request or refuses it, and
what it holds in the end depends on the first request for each capital form
alone:

* `entries_fill` — it lists the requests that were granted, in their order;
* `get?_fill` — a name stands for the symbol of the first request for it;
* `get?_of_mem_entries` — so each listed key is found, and gives its own symbol.

`first_request_stands` puts this together for every history of requests.  That a
key is found under itself rests on `Text.upper_upper`: a name is filed under its
capital form, and looked up under the capital form of what is asked for.
-/

namespace SegmentAssembler.SymbolTable

/-- A name that is to be declared, and what it is to stand for. -/
structure Request where
  name : Text
  symbol : Symbol
deriving DecidableEq, Repr

/-- The table after some requests. -/
def fill (t : SymbolTable) (requests : List Request) : SymbolTable :=
  requests.foldl (fun t q => t.declare q.name q.symbol) t

/-- The requests that are granted. -/
def granted (t : SymbolTable) : List Request → List Request
  | [] => []
  | q :: rest =>
    match t.insert q.name q.symbol with
    | .ok extended => q :: extended.granted rest
    | .error _ => t.granted rest

variable {t : SymbolTable}

@[simp] theorem fill_nil (t : SymbolTable) : t.fill [] = t := rfl

@[simp] theorem fill_cons (t : SymbolTable) (q : Request) (rest : List Request) :
    t.fill (q :: rest) = (t.declare q.name q.symbol).fill rest := rfl

/-- The last request meets the table of the requests before it. -/
theorem fill_concat (t : SymbolTable) (requests : List Request) (q : Request) :
    t.fill (requests ++ [q]) = (t.fill requests).declare q.name q.symbol := by
  simp [fill]

/-- A request for a name that is taken is passed over. -/
theorem granted_cons_of_contains {q : Request} (h : t.contains q.name = true)
    (rest : List Request) :
    t.granted (q :: rest) = (t.declare q.name q.symbol).granted rest := by
  simp [granted, declare, h]

/-- A request for a free name is granted. -/
theorem granted_cons_of_not_contains {q : Request} (h : t.contains q.name = false)
    (rest : List Request) :
    t.granted (q :: rest) = q :: (t.declare q.name q.symbol).granted rest := by
  simp [granted, declare, h]

/-- A request is refused exactly if the name is taken, and with its capital form. -/
theorem insert_eq_error_iff {name key : Text} {symbol : Symbol} :
    t.insert name symbol = .error key ↔ t.contains name = true ∧ key = Text.upper name := by
  cases hcontains : t.contains name with
  | true => simp [hcontains, eq_comm]
  | false => simp [hcontains]

/-- A request that is granted leaves the extended table. -/
theorem declare_of_insert {name : Text} {symbol : Symbol} {extended : SymbolTable}
    (h : t.insert name symbol = .ok extended) : t.declare name symbol = extended := by
  rw [declare, h]

/-! ### What is listed -/

/-- **The table lists the requests that were granted**, in their order. -/
theorem entries_fill (t : SymbolTable) (requests : List Request) :
    (t.fill requests).entries =
      t.entries ++ (t.granted requests).map fun q => (Text.upper q.name, q.symbol) := by
  induction requests generalizing t with
  | nil => simp [granted]
  | cons q rest ih =>
      rw [fill_cons, ih]
      cases hcontains : t.contains q.name with
      | true => rw [granted_cons_of_contains hcontains, declare_of_contains hcontains]
      | false =>
          rw [granted_cons_of_not_contains hcontains, entries_declare_of_not_contains hcontains,
            List.map_cons, List.append_assoc, List.singleton_append]

/-- Granted requests stand in the order in which they came. -/
theorem granted_sublist (t : SymbolTable) (requests : List Request) :
    (t.granted requests).Sublist requests := by
  induction requests generalizing t with
  | nil => exact .slnil
  | cons q rest ih =>
      cases hcontains : t.contains q.name with
      | true =>
          rw [granted_cons_of_contains hcontains]
          exact (ih _).cons q
      | false =>
          rw [granted_cons_of_not_contains hcontains]
          exact (ih _).cons_cons q

/-- However many requests there are, no key is filed twice. -/
theorem nodup_keys_fill (ht : t.keys.Nodup) (requests : List Request) :
    (t.fill requests).keys.Nodup := by
  induction requests generalizing t with
  | nil => exact ht
  | cons q rest ih => exact ih (nodup_keys_declare ht q.name q.symbol)

/-! ### What is found -/

/-- A look-up sees the capital form of a name only. -/
theorem get?_congr {name name' : Text} (h : Text.upper name = Text.upper name') :
    t.get? name = t.get? name' := by
  rw [get?, get?, h]

/-- What a name stands for after one more declaration: what it stood for, if
it did. -/
theorem get?_declare (t : SymbolTable) (name : Text) (symbol : Symbol) (asked : Text) :
    (t.declare name symbol).get? asked =
      (t.get? asked).or (if Text.upper name = Text.upper asked then some symbol else none) := by
  cases hcontains : t.contains name with
  | true =>
      rw [declare_of_contains hcontains]
      by_cases hkey : Text.upper name = Text.upper asked
      · rw [contains, get?_congr hkey] at hcontains
        rw [Option.or_of_isSome hcontains]
      · rw [if_neg hkey, Option.or_none]
  | false =>
      rw [get?, entries_declare_of_not_contains hcontains, List.lookup_append, ← get?]
      by_cases hkey : Text.upper name = Text.upper asked
      · rw [if_pos hkey, hkey, List.lookup_cons_self]
      · have hother : (Text.upper asked == Text.upper name) = false :=
          beq_false_of_ne (Ne.symm hkey)
        rw [if_neg hkey, List.lookup_cons, hother, List.lookup_nil]

/-- **The first request for a name decides what it stands for**, if the table
did not know it. -/
theorem get?_fill (t : SymbolTable) (requests : List Request) (asked : Text) :
    (t.fill requests).get? asked =
      (t.get? asked).or
        ((requests.find? fun q => Text.upper q.name == Text.upper asked).map Request.symbol) := by
  induction requests generalizing t with
  | nil => simp
  | cons q rest ih =>
      rw [fill_cons, ih, get?_declare, Option.or_assoc]
      by_cases hkey : Text.upper q.name = Text.upper asked
      · simp [hkey]
      · simp [hkey]

/-- A name is taken if it was before or if one of the requests was for it. -/
theorem contains_fill (t : SymbolTable) (requests : List Request) (asked : Text) :
    (t.fill requests).contains asked =
      (t.contains asked || requests.any fun q => Text.upper q.name == Text.upper asked) := by
  rw [contains, get?_fill, Option.isSome_or, Option.isSome_map, List.isSome_find?]
  rfl

/-- **A listed key is found, and gives its own symbol.** -/
theorem get?_of_mem_entries {name : Text} {symbol : Symbol} (ht : t.keys.Nodup)
    (h : (Text.upper name, symbol) ∈ t.entries) : t.get? (Text.upper name) = some symbol := by
  obtain ⟨before, after, hentries⟩ := List.append_of_mem h
  rw [get?, Text.upper_upper]
  refine List.lookup_eq_some_iff.mpr ⟨before, after, hentries, ?_⟩
  intro entry hentry
  rw [keys, hentries, List.map_append, List.map_cons] at ht
  have hapart := (List.nodup_append.mp ht).2.2 entry.1 (List.mem_map_of_mem hentry)
    (Text.upper name) List.mem_cons_self
  exact bne_iff_ne.mpr (Ne.symm hapart)

/-! ### Every history of requests -/

/-- **The first request for a name stands.**  Whatever is requested of an empty
table, in whatever letters:

* it lists what it granted under the capital forms, in order and no key twice;
* one more request is refused exactly if an earlier one has the same capital
  form; the answer is this form, and the table stays as it is;
* a name stands for what the first request with its capital form says, and a
  listed key for the symbol listed with it. -/
theorem first_request_stands (history : List Request) :
    let t := fill {} history
    let listed := granted {} history
    (listed.Sublist history ∧
      t.entries = listed.map (fun q => (Text.upper q.name, q.symbol)) ∧
      t.keys.Nodup ∧ t.size = listed.length) ∧
    (∀ q : Request,
      ((∃ key, t.insert q.name q.symbol = .error key) ↔
        ∃ earlier ∈ history, Text.upper earlier.name = Text.upper q.name) ∧
      (∀ key, t.insert q.name q.symbol = .error key →
        key = Text.upper q.name ∧ fill {} (history ++ [q]) = t) ∧
      (∀ extended, t.insert q.name q.symbol = .ok extended →
        fill {} (history ++ [q]) = extended)) ∧
    (∀ name,
      t.get? name = (history.find? fun q => Text.upper q.name == Text.upper name).map
        Request.symbol ∧
      t.contains name = history.any fun q => Text.upper q.name == Text.upper name) ∧
    (∀ name name', Text.upper name = Text.upper name' →
      t.get? name = t.get? name' ∧ t.contains name = t.contains name') ∧
    ∀ entry ∈ t.entries, t.get? entry.1 = some entry.2 ∧ t.contains entry.1 = true := by
  intro t listed
  have hentries : t.entries = listed.map fun q => (Text.upper q.name, q.symbol) :=
    entries_fill {} history
  have hnodup : t.keys.Nodup := nodup_keys_fill (t := {}) List.nodup_nil history
  have hsize : t.size = listed.length := by rw [size, hentries, List.length_map]
  have hcontains : ∀ name, t.contains name =
      history.any fun q => Text.upper q.name == Text.upper name := contains_fill {} history
  refine ⟨⟨granted_sublist {} history, hentries, hnodup, hsize⟩, ?_, ?_, ?_, ?_⟩
  · intro q
    refine ⟨?_, ?_, ?_⟩
    · simp [insert_eq_error_iff, hcontains]
    · intro key hrefused
      obtain ⟨htaken, hkey⟩ := insert_eq_error_iff.mp hrefused
      exact ⟨hkey, by rw [fill_concat, declare_of_contains htaken]⟩
    · intro extended hgranted
      rw [fill_concat, declare_of_insert hgranted]
  · intro name
    exact ⟨get?_fill {} history name, hcontains name⟩
  · intro name name' hkey
    have hget : t.get? name = t.get? name' := get?_congr hkey
    exact ⟨hget, by rw [contains, contains, hget]⟩
  · intro entry hentry
    obtain ⟨q, -, hq⟩ := List.mem_map.mp (hentries ▸ hentry)
    have hget : t.get? entry.1 = some entry.2 := by
      subst hq
      exact get?_of_mem_entries hnodup hentry
    exact ⟨hget, by rw [contains, hget, Option.isSome_some]⟩

/-- The sharp s, and a long s before an s, have the capital form of the two letters
`ss`: the first request for one of them stands for all. -/
theorem first_request_stands_sharp_s :
    let early : Symbol := ⟨.label, 1⟩
    let late : Symbol := ⟨.ascii, 4⟩
    let history : List Request := [⟨['ß'], early⟩, ⟨['ſ'], .word, 2⟩, ⟨"sS".toList, .byte, 3⟩]
    let t := fill {} history
    let wider : SymbolTable :=
      ⟨[("SS".toList, early), ("S".toList, ⟨.word, 2⟩), ("SX".toList, late)]⟩
    (t.insert ['ſ', 's'] late = .error "SS".toList ∧
      fill {} (history ++ [⟨['ſ', 's'], late⟩]) = t) ∧
    (t.insert "sx".toList late = .ok wider ∧
      fill {} (history ++ [⟨"sx".toList, late⟩]) = wider) ∧
    (Text.upper "ss".toList = Text.upper ['ß'] ∧ t.get? "ss".toList = t.get? ['ß']) ∧
    ("SS".toList, early) ∈ t.entries ∧ t.get? "SS".toList = some early := by
  intro early late history t wider
  obtain ⟨-, hnext, -, hcase, hlisted⟩ := first_request_stands history
  have hrefused : t.insert ['ſ', 's'] late = .error "SS".toList := by decide
  have hgranted : t.insert "sx".toList late = .ok wider := by decide
  have hform : Text.upper "ss".toList = Text.upper ['ß'] := by decide
  have hentry : ("SS".toList, early) ∈ t.entries := by decide
  exact ⟨⟨hrefused, ((hnext ⟨['ſ', 's'], late⟩).2.1 _ hrefused).2⟩,
    ⟨hgranted, (hnext ⟨"sx".toList, late⟩).2.2 _ hgranted⟩,
    ⟨hform, (hcase _ _ hform).1⟩, hentry, (hlisted _ hentry).1⟩

end SegmentAssembler.SymbolTable
