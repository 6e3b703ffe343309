import EventTracking.Proofs.Json.Scalars
import Mathlib.Data.List.DropRight

set_option autoImplicit false

namespace EventTracking

namespace Entries

variable {α : Type}

theorem insert_last {key : String} (value : α) {entries : List (String × α)}
    (above : ∀ e ∈ entries, e.1 < key) : insert key value entries = entries ++ [(key, value)] := by
  induction entries with
  | nil => rfl
  | cons e rest ih =>
    have here : e.1 < key := above e (by simp)
    have notBelow : ¬ key < e.1 := String.lt_asymm here
    have other : key ≠ e.1 := by
      rintro rfl
      exact notBelow here
    rw [insert, if_neg notBelow, if_neg other, ih fun e he => above e (by simp [he])]
    rfl

theorem ofList_eq_self {entries : List (String × α)} (sorted : Sorted entries) :
    ofList entries = entries := by
  suffices all : ∀ acc : List (String × α), Sorted (acc ++ entries) →
      entries.foldl (fun acc e => insert e.1 e.2 acc) acc = acc ++ entries from all [] sorted
  induction entries with
  | nil => simp
  | cons e rest ih =>
    intro acc whole
    have above : ∀ a ∈ acc, a.1 < e.1 :=
      fun a ha => (List.pairwise_append.1 whole).2.2 a ha e (by simp)
    have behind : Sorted ((acc ++ [e]) ++ rest) := by simpa using whole
    rw [List.foldl_cons, insert_last e.2 above, ih (List.Pairwise.of_cons sorted) _ behind]
    simp

end Entries

namespace Json

mutual

def parts : Json → List Json
  | arr items => arr items :: itemsParts items
  | obj entries => obj entries :: entriesParts entries
  | v => [v]

def itemsParts : List Json → List Json
  | [] => []
  | v :: rest => parts v ++ itemsParts rest

def entriesParts : List (String × Json) → List Json
  | [] => []
  | (_, v) :: rest => parts v ++ entriesParts rest

end

mutual

def height : Json → Nat
  | arr items => itemsHeight items + 1
  | obj entries => entriesHeight entries + 1
  | _ => 0

def itemsHeight : List Json → Nat
  | [] => 0
  | v :: rest => max (height v) (itemsHeight rest)

def entriesHeight : List (String × Json) → Nat
  | [] => 0
  | (_, v) :: rest => max (height v) (entriesHeight rest)

end

structure NumbersRead (parts : List Json) : Prop where
  bounded : ∀ n, int n ∈ parts → minInt ≤ n ∧ n ≤ maxInt
  floats : ∀ x, float x ∈ parts → ofText? x.text = .ok (.float x)

theorem NumbersRead.part {part whole : List Json} (h : NumbersRead whole)
    (inside : part ⊆ whole) : NumbersRead part :=
  ⟨fun n hn => h.bounded n (inside hn), fun x hx => h.floats x (inside hx)⟩

theorem readText_eq_ok {α : Type} {read : Source → Except ReadError α} {text : String} {a : α} :
    readText read text = .ok a ↔
      read (Source.ofText text).1 = .ok a ∧ (Source.ofText text).2 = false := by
  unfold readText
  rcases Source.ofText text with ⟨s, more⟩
  cases h : read s <;> cases more <;>
    simp [h, bind, Except.bind, pure, Except.pure, throw, throwThe, MonadExceptOf.throw]

namespace Source

theorem skipBlank_skipBlank (cs : List Char) : skipBlank (skipBlank cs) = skipBlank cs :=
  List.dropWhile_idempotent ..

theorem scan_skipBlank (depth fuel : Nat) (cs : List Char) :
    scan depth fuel (skipBlank cs) = scan depth fuel cs := by
  cases fuel with
  | zero => rfl
  | succ fuel => rw [scan, scan, skipBlank_skipBlank]

theorem scanItems_skipBlank (depth fuel : Nat) (cs : List Char) :
    scanItems depth fuel (skipBlank cs) = scanItems depth fuel cs := by
  cases fuel with
  | zero => rfl
  | succ fuel => rw [scanItems, scanItems, scan_skipBlank]

theorem scan_ok_head {depth fuel : Nat} {cs rest : List Char} {s : Source}
    (read : scan depth fuel cs = (s, .ok rest)) :
    ∃ c cs', skipBlank cs = c :: cs' ∧ c ≠ ']' := by
  cases fuel with
  | zero => simp [scan, breakOff] at read
  | succ fuel =>
    rw [scan] at read
    cases h : skipBlank cs with
    | nil => simp [h, breakOff] at read
    | cons c cs' =>
      refine ⟨c, cs', rfl, ?_⟩
      rintro rfl
      simp [h, breakOff] at read

theorem Ends.of_comma (rest : List Char) : Ends (',' :: rest) := by simp [Ends]

theorem Ends.of_bracket (rest : List Char) : Ends (']' :: rest) := by simp [Ends]

theorem Ends.of_brace (rest : List Char) : Ends ('\x7d' :: rest) := by simp [Ends]

theorem scan_number {depth fuel : Nat} {c : Char} {cs cs' : List Char}
    (head : skipBlank cs = c :: cs') (start : (c == '-' || c.isDigit) = true) :
    scan depth (fuel + 1) cs = ofNumber (c :: cs') := by
  rw [scan, head]
  split <;> rename_i same <;> cases same
  case h_8 => exact if_pos start
  all_goals cases start

def Reads (scanned : Source × Rest) (s : Source) (rest : List Char) : Prop :=
  ∃ left, scanned = (s, .ok left) ∧ skipBlank left = skipBlank rest

theorem reads_number {depth fuel : Nat} {c : Char} {cs cs' left rest : List Char} {v : Json}
    (ends : Ends rest) (head : skipBlank cs = c :: cs') (start : (c == '-' || c.isDigit) = true)
    (read : ofNumber (c :: cs') = (.scalar v, .ok left)) (nothing : skipBlank left = []) :
    Reads (scan depth (fuel + 1) (cs ++ rest)) (.scalar v) rest := by
  have blank (cs : List Char) : skipBlank (cs ++ rest) =
      if skipBlank cs = [] then skipBlank rest else skipBlank cs ++ rest := by
    unfold skipBlank
    rw [List.dropWhile_append]
    simp only [List.isEmpty_iff]
  refine ⟨left ++ rest, ?_, ?_⟩
  · have head : skipBlank (cs ++ rest) = c :: (cs' ++ rest) := by simp [blank, head]
    have appended := ofNumber_append ends read
    rw [List.cons_append] at appended
    rw [scan_number head start, appended]
  · rw [blank, if_pos nothing]

theorem ofString_ne (r : Option String × Rest) (x : Binary64) (rest : Rest) :
    ofString r ≠ (.scalar (.float x), rest) := by
  intro read
  unfold ofString at read
  split at read <;> cases read

theorem ofWord_scalar {v w : Json} {word cs : List Char} {rest : Rest}
    (read : ofWord v word cs = (.scalar w, rest)) : w = v := by
  induction word generalizing cs with
  | nil =>
    cases read
    rfl
  | cons c word ih =>
    cases cs with
    | nil => cases read
    | cons c' cs =>
      rw [ofWord] at read
      split at read
      · exact ih read
      · cases read

theorem withinDepth_scalar {depth : Nat} {scanned : Source × Rest} {v : Json} {rest : Rest}
    (read : withinDepth depth scanned = (.scalar v, rest)) : scanned.1 = .scalar v := by
  unfold withinDepth at read
  dsimp only at read
  split at read
  · exact congrArg Prod.fst read
  · split at read <;> cases read

theorem ofNumber_of_scan {depth fuel : Nat} {cs : List Char} {x : Binary64} {rest : Rest}
    (read : scan depth fuel cs = (.scalar (.float x), rest)) :
    ∃ c cs', skipBlank cs = c :: cs' ∧ (c == '-' || c.isDigit) = true ∧
      ofNumber (c :: cs') = (.scalar (.float x), rest) := by
  cases fuel with
  | zero => cases read
  | succ fuel =>
    rw [scan] at read
    split at read
    · cases read
    · exact absurd read (ofString_ne _ _ _)
    · have found := withinDepth_scalar read
      split at found <;> cases found
    · have found := withinDepth_scalar read
      split at found <;> cases found
    · cases ofWord_scalar read
    · cases ofWord_scalar read
    · cases ofWord_scalar read
    · next c cs' _ _ _ _ _ _ head =>
      split at read
      · next start => exact ⟨c, cs', head, start, read⟩
      · cases read

theorem json_array {items : List Source} {ending : Option Fault} {v : Json} :
    json (.array items ending) = .ok v ↔
      ∃ values, jsonItems items = .ok values ∧ ending = none ∧ v = .arr values := by
  rw [json, bind_eq_ok]
  cases ending <;> simp [checkEnding, bind, Except.bind, pure, Except.pure, eq_comm]

theorem json_object {entries : List (Option String × Source)} {ending : Option Fault} {v : Json} :
    json (.object entries ending) = .ok v ↔
      ∃ values, jsonEntries entries = .ok values ∧ ending = none ∧ v = .ofEntries values := by
  rw [json, bind_eq_ok]
  cases ending <;> simp [checkEnding, bind, Except.bind, pure, Except.pure, eq_comm]

theorem json_scalar {s : Source} {x : Binary64} (read : json s = .ok (.float x)) :
    s = .scalar (.float x) := by
  cases s with
  | scalar v =>
    cases read
    rfl
  | valueless | broken => cases read
  | array items ending =>
    obtain ⟨values, _, _, same⟩ := json_array.1 read
    cases same
  | object entries ending =>
    obtain ⟨values, _, _, same⟩ := json_object.1 read
    cases same

theorem reads_float {x : Binary64} (read : ofText? x.text = .ok (.float x)) {rest : List Char}
    (ends : Ends rest) (depth fuel : Nat) :
    Reads (scan depth (fuel + 1) (x.text.toList ++ rest)) (.scalar (.float x)) rest := by
  obtain ⟨value, more⟩ := readText_eq_ok.1 read
  have found := json_scalar value
  unfold ofText at found more
  dsimp only at found more
  rcases h : scan 0 (2 * x.text.toList.length + 2) x.text.toList with ⟨s, f | left⟩
  · rw [h] at found
    cases found
    obtain ⟨c, cs', _, _, failed⟩ := ofNumber_of_scan h
    unfold ofNumber at failed
    split at failed
    · cases failed
    · split at failed <;> cases failed
  · rw [h] at found more
    cases found
    obtain ⟨c, cs', head, start, read⟩ := ofNumber_of_scan h
    exact reads_number ends head start read (by simpa using more)

theorem reads_int {n : Int} (least : minInt ≤ n) (most : n ≤ maxInt) {rest : List Char}
    (ends : Ends rest) (depth fuel : Nat) :
    Reads (scan depth (fuel + 1) ((toString n).toList ++ rest)) (.scalar (.int n)) rest := by
  have read := ofNumber_int least most
  have start : ∃ c cs, (toString n).toList = c :: cs ∧ (c == '-' || c.isDigit) = true := by
    rw [Int.toString_eq_repr, Int.repr_eq_if]
    split
    · rw [Nat.toList_repr]
      cases h : Nat.toDigits 10 n.toNat with
      | nil => exact absurd h Nat.toDigits_ne_nil
      | cons c cs =>
        have digit : c.isDigit = true :=
          Nat.isDigit_of_mem_toDigits (by decide) (by decide) (h ▸ List.mem_cons_self)
        exact ⟨c, cs, rfl, by simp [digit]⟩
    · exact ⟨'-', (-n).toNat.repr.toList, by simp, rfl⟩
  obtain ⟨c, cs, chars, start⟩ := start
  have unblank : isBlankChar c = false := by
    rcases Bool.or_eq_true_iff.1 start with minus | digit
    · obtain rfl := eq_of_beq minus
      rfl
    · cases blank : isBlankChar c with
      | false => rfl
      | true =>
        simp only [isBlankChar, Bool.or_eq_true, beq_iff_eq] at blank
        rcases blank with ((rfl | rfl) | rfl) | rfl <;> cases digit
  rw [chars] at read ⊢
  exact reads_number ends (by simp [skipBlank, unblank]) start read rfl

theorem toList_quoted (s : String) :
    (quoted s).toList = '"' :: (s.toList.flatMap escape ++ ['"']) := by
  simp [quoted]

theorem toList_itemsText (v : Json) (items : List Json) :
    (itemsText (v :: items)).toList =
      v.text.toList ++ if items = [] then [] else ',' :: (itemsText items).toList := by
  cases items <;> simp [itemsText]

theorem toList_entriesText (key : String) (v : Json) (entries : List (String × Json)) :
    (entriesText ((key, v) :: entries)).toList =
      (quoted key).toList ++ ':' :: (v.text.toList ++
        if entries = [] then [] else ',' :: (entriesText entries).toList) := by
  cases entries <;> simp [entriesText]

theorem scanItems_ok_head {depth fuel : Nat} {cs rest : List Char} {items : List Source}
    (read : scanItems depth fuel cs = (items, none, .ok rest)) :
    ∃ c cs', skipBlank cs = c :: cs' ∧ c ≠ ']' := by
  cases fuel with
  | zero => cases read
  | succ fuel =>
    rw [scanItems] at read
    rcases h : scan depth fuel cs with ⟨item, f | left⟩
    · simp [h] at read
    · exact scan_ok_head h

theorem scan_array {depth fuel : Nat} {cs rest : List Char} {items : List Source}
    (flat : depth < maxDepth) (read : scanItems (depth + 1) fuel cs = (items, none, .ok rest)) :
    scan depth (fuel + 1) ('[' :: cs) = (.array items none, .ok rest) := by
  obtain ⟨c, cs', head, other⟩ := scanItems_ok_head read
  rw [← scanItems_skipBlank, head] at read
  have bracket : skipBlank ('[' :: cs) = '[' :: cs := rfl
  rw [scan]
  simp only [bracket]
  rw [head]
  split
  · next same =>
    cases same
    exact absurd rfl other
  · next same => cases same
  · rw [read]
    exact if_pos flat

theorem scan_object {depth fuel : Nat} {cs rest : List Char}
    {entries : List (Option String × Source)} (flat : depth < maxDepth)
    (read : scanEntries (depth + 1) fuel ('"' :: cs) = (entries, none, .ok rest)) :
    scan depth (fuel + 1) ('\x7b' :: '"' :: cs) = (.object entries none, .ok rest) := by
  have inside := congrArg (fun r => withinDepth depth (.object r.1 r.2.1, r.2.2)) read
  exact inside.trans (if_pos flat)

theorem scanItems_last {depth fuel : Nat} {cs rest : List Char} {s : Source}
    (read : Reads (scan depth fuel cs) s (']' :: rest)) :
    scanItems depth (fuel + 1) cs = ([s], none, .ok rest) := by
  obtain ⟨left, scanned, same⟩ := read
  rw [scanItems, scanned]
  dsimp only
  rw [same]
  rfl

theorem scanItems_more {depth fuel : Nat} {cs behind rest : List Char} {s : Source}
    {items : List Source} (read : Reads (scan depth fuel cs) s (',' :: behind))
    (others : scanItems depth fuel behind = (items, none, .ok rest)) :
    scanItems depth (fuel + 1) cs = (s :: items, none, .ok rest) := by
  obtain ⟨left, scanned, same⟩ := read
  have comma : skipBlank (',' :: behind) = ',' :: behind := rfl
  rw [scanItems, scanned]
  simp only [same, comma, others]

theorem scanString_key (key : String) (rest : List Char) :
    scanString {} (key.toList.flatMap escape ++ '"' :: rest) = (some key, .ok rest) := by
  simpa using scanString_quoted [] key.toList rest

theorem scanEntries_key (depth fuel : Nat) (key : String) (cs : List Char) :
    scanEntries depth (fuel + 1) ((quoted key).toList ++ ':' :: cs) =
      match scan depth fuel cs with
      | (value, .error f) => ([(some key, value)], some f, .error f)
      | (value, .ok rest) =>
        match skipBlank rest with
        | ',' :: rest =>
          match scanEntries depth fuel rest with
          | (entries, ending, rest) => ((some key, value) :: entries, ending, rest)
        | '\x7d' :: rest => ([(some key, value)], none, .ok rest)
        | rest => ([(some key, value)], some (misplaced rest), .error (misplaced rest)) := by
  have quote (cs : List Char) : skipBlank ('"' :: cs) = '"' :: cs := rfl
  have colon (cs : List Char) : skipBlank (':' :: cs) = ':' :: cs := rfl
  have unfolded := scanEntries.eq_def depth (fuel + 1)
    ('"' :: (key.toList.flatMap escape ++ '"' :: ':' :: cs))
  simp only [quote, scanString_key, colon] at unfolded
  rw [toList_quoted, List.cons_append, List.append_assoc, List.singleton_append]
  exact unfolded

theorem scanEntries_last {depth fuel : Nat} {key : String} {cs rest : List Char} {s : Source}
    (read : Reads (scan depth fuel cs) s ('\x7d' :: rest)) :
    scanEntries depth (fuel + 1) ((quoted key).toList ++ ':' :: cs) =
      ([(some key, s)], none, .ok rest) := by
  obtain ⟨left, scanned, same⟩ := read
  have behind : skipBlank ('\x7d' :: rest) = '\x7d' :: rest := rfl
  rw [scanEntries_key, scanned]
  simp only [same, behind]

theorem scanEntries_more {depth fuel : Nat} {key : String} {cs behind rest : List Char} {s : Source}
    {entries : List (Option String × Source)} (read : Reads (scan depth fuel cs) s (',' :: behind))
    (others : scanEntries depth fuel behind = (entries, none, .ok rest)) :
    scanEntries depth (fuel + 1) ((quoted key).toList ++ ':' :: cs) =
      ((some key, s) :: entries, none, .ok rest) := by
  obtain ⟨left, scanned, same⟩ := read
  have comma : skipBlank (',' :: behind) = ',' :: behind := rfl
  rw [scanEntries_key, scanned]
  simp only [same, comma, others]

theorem reads_str (s : String) (rest : List Char) (depth fuel : Nat) :
    Reads (scan depth (fuel + 1) ((Json.str s).text.toList ++ rest)) (.scalar (.str s)) rest := by
  refine ⟨rest, ?_, rfl⟩
  have chars : (Json.str s).text.toList ++ rest =
      '"' :: (s.toList.flatMap escape ++ '"' :: rest) := by
    simp [text, scalarText, toList_quoted]
  rw [chars]
  change ofString (scanString {} _) = _
  rw [scanString_key]
  rfl

mutual

theorem reads_text (v : Json) (numbers : NumbersRead v.parts) {depth fuel : Nat}
    (flat : depth + v.height ≤ maxDepth) (enough : 2 * v.text.toList.length ≤ fuel)
    {rest : List Char} (ends : Ends rest) :
    Reads (scan depth (fuel + 1) (v.text.toList ++ rest)) (ofJson v) rest := by
  cases v with
  | null => exact ⟨rest, rfl, rfl⟩
  | bool b => cases b <;> exact ⟨rest, rfl, rfl⟩
  | int n =>
    obtain ⟨least, most⟩ := numbers.bounded n (by simp [parts])
    exact reads_int least most ends depth fuel
  | float x => exact reads_float (numbers.floats x (by simp [parts])) ends depth fuel
  | str s => exact reads_str s rest depth fuel
  | arr items =>
    cases items with
    | nil =>
      rw [height] at flat
      have shallow : depth < maxDepth := by omega
      refine ⟨rest, ?_, rfl⟩
      change withinDepth depth (.array [] none, .ok rest) = _
      exact if_pos shallow
    | cons v items =>
      have chars : (Json.arr (v :: items)).text.toList ++ rest =
          '[' :: ((itemsText (v :: items)).toList ++ ']' :: rest) := by
        simp [text]
      have length : (Json.arr (v :: items)).text.toList.length =
          (itemsText (v :: items)).toList.length + 2 := by
        simp [text]
      rw [length] at enough
      obtain ⟨fuel, rfl⟩ : ∃ n, fuel = n + 1 := ⟨fuel - 1, by omega⟩
      rw [height] at flat
      have inside : NumbersRead (itemsParts (v :: items)) := numbers.part (by simp [parts])
      refine ⟨rest, ?_, rfl⟩
      rw [chars]
      apply scan_array (by omega)
      exact scanItems_text (v :: items) (by simp) inside (by omega) (by omega) rest
  | obj entries =>
    cases entries with
    | nil =>
      rw [height] at flat
      have shallow : depth < maxDepth := by omega
      refine ⟨rest, ?_, rfl⟩
      change withinDepth depth (.object [] none, .ok rest) = _
      exact if_pos shallow
    | cons e entries =>
      obtain ⟨key, v⟩ := e
      have chars : (Json.obj ((key, v) :: entries)).text.toList ++ rest =
          '\x7b' :: ((entriesText ((key, v) :: entries)).toList ++ '\x7d' :: rest) := by
        simp [text]
      have length : (Json.obj ((key, v) :: entries)).text.toList.length =
          (entriesText ((key, v) :: entries)).toList.length + 2 := by
        simp [text]
      rw [length] at enough
      obtain ⟨fuel, rfl⟩ : ∃ n, fuel = n + 1 := ⟨fuel - 1, by omega⟩
      rw [height] at flat
      have inside : NumbersRead (entriesParts ((key, v) :: entries)) := numbers.part (by simp [parts])
      have flatter : depth + 1 + entriesHeight ((key, v) :: entries) ≤ maxDepth := by omega
      have plenty : 2 * (entriesText ((key, v) :: entries)).toList.length + 1 ≤ fuel := by omega
      have read := scanEntries_text ((key, v) :: entries) (by simp) inside flatter plenty rest
      refine ⟨rest, ?_, rfl⟩
      rw [chars]
      rw [toList_entriesText, toList_quoted] at read ⊢
      exact scan_object (by omega) read

theorem scanItems_text (items : List Json) (some_ : items ≠ [])
    (numbers : NumbersRead (itemsParts items)) {depth fuel : Nat}
    (flat : depth + itemsHeight items ≤ maxDepth)
    (enough : 2 * (itemsText items).toList.length + 1 ≤ fuel) (rest : List Char) :
    scanItems depth (fuel + 1) ((itemsText items).toList ++ ']' :: rest) =
      (ofItems items, none, .ok rest) := by
  match items with
  | [] => exact absurd rfl some_
  | v :: items =>
    have first : NumbersRead v.parts := numbers.part (by simp [itemsParts])
    have others : NumbersRead (itemsParts items) := numbers.part (by simp [itemsParts])
    rw [itemsHeight] at flat
    rw [toList_itemsText] at enough ⊢
    obtain ⟨fuel, rfl⟩ : ∃ n, fuel = n + 1 := ⟨fuel - 1, by omega⟩
    by_cases last : items = []
    · subst last
      rw [if_pos rfl, List.append_nil] at enough ⊢
      apply scanItems_last
      exact reads_text v first (by omega) (by omega) (.of_bracket rest)
    · rw [if_neg last] at enough ⊢
      simp only [List.length_append, List.length_cons] at enough
      rw [List.append_assoc, List.cons_append]
      apply scanItems_more (reads_text v first (by omega) (by omega) (.of_comma _))
      exact scanItems_text items last others (by omega) (by omega) rest

theorem scanEntries_text (entries : List (String × Json)) (some_ : entries ≠ [])
    (numbers : NumbersRead (entriesParts entries)) {depth fuel : Nat}
    (flat : depth + entriesHeight entries ≤ maxDepth)
    (enough : 2 * (entriesText entries).toList.length + 1 ≤ fuel) (rest : List Char) :
    scanEntries depth (fuel + 1) ((entriesText entries).toList ++ '\x7d' :: rest) =
      (ofEntries entries, none, .ok rest) := by
  match entries with
  | [] => exact absurd rfl some_
  | (key, v) :: entries =>
    have first : NumbersRead v.parts := numbers.part (by simp [entriesParts])
    have others : NumbersRead (entriesParts entries) := numbers.part (by simp [entriesParts])
    rw [entriesHeight] at flat
    rw [toList_entriesText] at enough ⊢
    simp only [List.length_append, List.length_cons] at enough
    rw [List.append_assoc, List.cons_append, List.append_assoc]
    obtain ⟨fuel, rfl⟩ : ∃ n, fuel = n + 1 := ⟨fuel - 1, by omega⟩
    by_cases last : entries = []
    · subst last
      apply scanEntries_last
      rw [if_pos rfl]
      exact reads_text v first (by omega) (by omega) (.of_brace rest)
    · rw [if_neg last] at enough ⊢
      simp only [List.length_cons] at enough
      rw [List.cons_append]
      apply scanEntries_more (reads_text v first (by omega) (by omega) (.of_comma _))
      exact scanEntries_text entries last others (by omega) (by omega) rest

end

theorem ofText_text {v : Json} (numbers : NumbersRead v.parts) (flat : v.height ≤ maxDepth) :
    ofText v.text = (ofJson v, false) := by
  have shallow : 0 + v.height ≤ maxDepth := by omega
  have plenty : 2 * v.text.toList.length ≤ 2 * v.text.toList.length + 1 := by omega
  have nothing : Ends [] := by simp [Ends]
  obtain ⟨left, scanned, blank⟩ := reads_text v numbers shallow plenty nothing
  rw [List.append_nil] at scanned
  have blank : skipBlank left = [] := blank
  unfold ofText
  simp [scanned, blank]

mutual

theorem json_ofJson (v : Json) (ordered : ∀ entries, .obj entries ∈ v.parts → Entries.Sorted entries) :
    json (ofJson v) = .ok v := by
  match v with
  | .null | .bool _ | .int _ | .float _ | .str _ => rfl
  | .arr items =>
    have read := jsonItems_ofItems items fun entries h => ordered entries (by simp [parts, h])
    exact json_array.2 ⟨items, read, rfl, rfl⟩
  | .obj entries =>
    have read := jsonEntries_ofEntries entries fun entries h => ordered entries (by simp [parts, h])
    have sorted := ordered entries (by simp [parts])
    exact json_object.2 ⟨entries, read, rfl, by rw [Json.ofEntries, Entries.ofList_eq_self sorted]⟩

theorem jsonItems_ofItems (items : List Json)
    (ordered : ∀ entries, .obj entries ∈ itemsParts items → Entries.Sorted entries) :
    jsonItems (ofItems items) = .ok items := by
  match items with
  | [] => rfl
  | v :: items =>
    rw [ofItems, jsonItems, json_ofJson v fun entries h => ordered entries (by simp [itemsParts, h]),
      jsonItems_ofItems items fun entries h => ordered entries (by simp [itemsParts, h])]
    rfl

theorem jsonEntries_ofEntries (entries : List (String × Json))
    (ordered : ∀ inner, .obj inner ∈ entriesParts entries → Entries.Sorted inner) :
    jsonEntries (ofEntries entries) = .ok entries := by
  match entries with
  | [] => rfl
  | (key, v) :: entries =>
    rw [ofEntries, jsonEntries,
      json_ofJson v fun entries h => ordered entries (by simp [entriesParts, h]),
      jsonEntries_ofEntries entries fun entries h => ordered entries (by simp [entriesParts, h])]
    rfl

end

end Source

theorem readText_text {α : Type} (read : Source → Except ReadError α) {v : Json}
    (numbers : NumbersRead v.parts) (flat : v.height ≤ Source.maxDepth) :
    readText read v.text = read (Source.ofJson v) := by
  unfold readText
  rw [Source.ofText_text numbers flat]
  cases h : read (Source.ofJson v) <;> simp [h, bind, Except.bind, pure, Except.pure]

end Json

end EventTracking
