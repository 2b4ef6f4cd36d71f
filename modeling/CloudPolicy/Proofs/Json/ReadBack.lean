import CloudPolicy.Proofs.Json.Scalar

/-!
Reading what was written. A document is portable if every part has a value, integers fit into 64
bits and no object repeats a key; it is scanned as its tokens, and the machine takes these back to
the document.
-/

set_option autoImplicit false
set_option relaxedAutoImplicit false

namespace CloudPolicy.Json

mutual

/-- How many arrays and objects stand inside one another. -/
def nesting : Json → Nat
  | .array items => nestingOfItems items + 1
  | .object members => nestingOfMembers members + 1
  | _ => 0

def nestingOfItems : List Json → Nat
  | [] => 0
  | v :: vs => max (nesting v) (nestingOfItems vs)

def nestingOfMembers : List (String × Json) → Nat
  | [] => 0
  | (_, v) :: ms => max (nesting v) (nestingOfMembers ms)

end

private theorem nestingOfItems_le {n : Nat} {items : List Json} :
    nestingOfItems items ≤ n ↔ ∀ v ∈ items, v.nesting ≤ n := by
  induction items with
  | nil => simp [nestingOfItems]
  | cons v vs ih => rw [nestingOfItems, Nat.max_le, ih, List.forall_mem_cons]

private theorem nestingOfMembers_le {n : Nat} {members : List (String × Json)} :
    nestingOfMembers members ≤ n ↔ ∀ m ∈ members, m.2.nesting ≤ n := by
  induction members with
  | nil => simp [nestingOfMembers]
  | cons m ms ih => rw [nestingOfMembers, Nat.max_le, ih, List.forall_mem_cons]

@[simp] theorem nesting_array_le {n : Nat} {items : List Json} :
    (array items).nesting ≤ n + 1 ↔ ∀ v ∈ items, v.nesting ≤ n := by
  rw [nesting, Nat.add_le_add_iff_right, nestingOfItems_le]

@[simp] theorem nesting_object_le {n : Nat} {members : List (String × Json)} :
    (object members).nesting ≤ n + 1 ↔ ∀ m ∈ members, m.2.nesting ≤ n := by
  rw [nesting, Nat.add_le_add_iff_right, nestingOfMembers_le]

theorem not_nesting_array_le_zero (items : List Json) : ¬(array items).nesting ≤ 0 := by
  simp [nesting]

theorem not_nesting_object_le_zero (members : List (String × Json)) :
    ¬(object members).nesting ≤ 0 := by
  simp [nesting]

/-- Documents that lose nothing when they are written and read. -/
inductive Portable : Json → Prop
  | null : Portable .null
  | bool (b : Bool) : Portable (.bool b)
  | integer {n : Int} : n.natAbs < UInt64.size → Portable (.integer n)
  | string (s : String) : Portable (.string s)
  | array {items : List Json} : (∀ v ∈ items, Portable v) → Portable (.array items)
  | object {members : List (String × Json)} : (members.map (·.1)).Nodup →
      (∀ m ∈ members, Portable m.2) → Portable (.object members)

mutual

def isPortable : Json → Bool
  | .null | .bool _ | .string _ => true
  | .integer n => n.natAbs < UInt64.size
  | .array items => arePortable items
  | .object members => decide (members.map (·.1)).Nodup && haveOnlyPortable members
  | .decimal .. | .unreadable => false

def arePortable : List Json → Bool
  | [] => true
  | v :: vs => v.isPortable && arePortable vs

def haveOnlyPortable : List (String × Json) → Bool
  | [] => true
  | (_, v) :: ms => v.isPortable && haveOnlyPortable ms

end

mutual

theorem portable_of_isPortable (v : Json) (found : v.isPortable = true) : v.Portable := by
  match v with
  | .null => exact .null
  | .bool b => exact .bool b
  | .string s => exact .string s
  | .integer n => exact .integer (by simpa [isPortable] using found)
  | .array items => exact .array (portable_of_arePortable items found)
  | .object members =>
    simp only [isPortable, Bool.and_eq_true, decide_eq_true_eq] at found
    exact .object found.1 (portable_of_haveOnlyPortable members found.2)

private theorem portable_of_arePortable (items : List Json) (found : arePortable items = true) :
    ∀ v ∈ items, v.Portable := by
  match items with
  | [] => simp
  | v :: vs =>
    simp only [arePortable, Bool.and_eq_true] at found
    exact List.forall_mem_cons.mpr ⟨portable_of_isPortable v found.1,
      portable_of_arePortable vs found.2⟩

private theorem portable_of_haveOnlyPortable (members : List (String × Json))
    (found : haveOnlyPortable members = true) : ∀ m ∈ members, m.2.Portable := by
  match members with
  | [] => simp
  | (key, v) :: ms =>
    simp only [haveOnlyPortable, Bool.and_eq_true] at found
    exact List.forall_mem_cons.mpr
      ⟨portable_of_isPortable v found.1, portable_of_haveOnlyPortable ms found.2⟩

end

theorem lastWins_of_nodup {α : Type} {ms : List (String × α)} (nodup : (ms.map (·.1)).Nodup) :
    lastWins ms = ms := by
  induction ms with
  | nil => rfl
  | cons m ms ih =>
    rw [List.map_cons, List.nodup_cons] at nodup
    have single : (ms.any fun x => x.1 == m.1) = false := by
      rw [List.any_eq_false]
      intro x hx same
      exact nodup.1 (List.mem_map.mpr ⟨x, hx, by simpa using same⟩)
    simp [lastWins, single, ih nodup.2]

theorem mapM_eq_map {α β : Type} {f : α → Option β} {g : α → β} {xs : List α}
    (each : ∀ x ∈ xs, f x = some (g x)) : xs.mapM f = some (xs.map g) := by
  induction xs with
  | nil => rfl
  | cons x xs ih =>
    have here := each x (by simp)
    have rest := ih fun y hy => each y (by simp [hy])
    simp [List.mapM_cons, here, rest]

theorem Portable.plain?_eq {v : Json} (portable : Portable v) {limit : Nat}
    (nests : v.nesting ≤ limit) : plain? limit v = some v := by
  induction portable generalizing limit with
  | null | bool | integer | string => cases limit <;> rfl
  | @array items _ ih =>
    cases limit with
    | zero => exact absurd nests (not_nesting_array_le_zero items)
    | succ limit =>
      have inner := nesting_array_le.mp nests
      have kept : items.mapM (plain? limit) = some (items.map id) :=
        mapM_eq_map fun v hv => ih v hv (inner v hv)
      simp [plain?, kept]
  | @object members nodup _ ih =>
    cases limit with
    | zero => exact absurd nests (not_nesting_object_le_zero members)
    | succ limit =>
      have inner := nesting_object_le.mp nests
      have kept : (members.mapM fun m => (plain? limit m.2).map (m.1, ·)) =
          some (members.map id) := by
        apply mapM_eq_map
        intro m hm
        rw [ih m hm (inner m hm)]
        rfl
      simp [plain?, kept, lastWins_of_nodup nodup]

theorem Portable.readable {v : Json} (portable : Portable v) {limit : Nat}
    (nests : v.nesting ≤ limit) : v.readable limit = true := by
  induction portable generalizing limit with
  | null | bool | integer | string => cases limit <;> rfl
  | @array items _ ih =>
    cases limit with
    | zero => exact absurd nests (not_nesting_array_le_zero items)
    | succ limit =>
      have inner := nesting_array_le.mp nests
      rw [Json.readable, List.all_eq_true]
      exact fun v hv => ih v hv (inner v hv)
  | @object members _ _ ih =>
    cases limit with
    | zero => exact absurd nests (not_nesting_object_le_zero members)
    | succ limit =>
      have inner := nesting_object_le.mp nests
      rw [Json.readable, List.all_eq_true]
      exact fun m hm => ih m hm (inner m hm)

mutual

/-- The tokens that a document is written with. -/
def tokens : Json → List Token
  | .string s => [.text (some s)]
  | .array [] => [.beginArray, .endArray]
  | .array (v :: vs) => .beginArray :: (tokens v ++ (tokensOfItems vs ++ [.endArray]))
  | .object [] => [.beginObject, .endObject]
  | .object ((k, v) :: ms) =>
    .beginObject :: .text (some k) :: .colon :: (tokens v ++ (tokensOfMembers ms ++ [.endObject]))
  | v => [.scalar v]

def tokensOfItems : List Json → List Token
  | [] => []
  | v :: vs => .comma :: (tokens v ++ tokensOfItems vs)

def tokensOfMembers : List (String × Json) → List Token
  | [] => []
  | (k, v) :: ms => .comma :: .text (some k) :: .colon :: (tokens v ++ tokensOfMembers ms)

end

namespace Token

/-- `Scans cs ts rest`: the text `cs` begins with the tokens `ts` and goes on with `rest`. -/
def Scans (cs : List Char) (ts : List Token) (rest : List Char) : Prop :=
  ∃ steps, steps + rest.length ≤ cs.length ∧
    ∀ fuel done, scanFrom (fuel + steps) done cs = scanFrom fuel (ts.reverse ++ done) rest

variable {cs mid rest : List Char} {ts ts' : List Token}

theorem Scans.refl (cs : List Char) : Scans cs [] cs := ⟨0, by simp, fun _ _ => rfl⟩

theorem Scans.trans (first : Scans cs ts mid) (second : Scans mid ts' rest) :
    Scans cs (ts ++ ts') rest := by
  obtain ⟨n, hn, first⟩ := first
  obtain ⟨m, hm, second⟩ := second
  refine ⟨m + n, by omega, fun fuel done => ?_⟩
  rw [← Nat.add_assoc, first, second]
  simp

theorem Scans.token {c : Char} {t : Token} (solid : isSpace c = false)
    (next : next? c cs = some (t, rest)) (shorter : rest.length ≤ cs.length) :
    Scans (c :: cs) [t] rest := by
  refine ⟨1, by simp; omega, fun fuel done => ?_⟩
  simp [scanFrom, solid, next]

theorem Scans.sign {c : Char} {t : Token} (solid : isSpace c = false)
    (next : next? c cs = some (t, cs)) : Scans (c :: cs) [t] cs :=
  Scans.token solid next (Nat.le_refl _)

theorem Scans.comma (cs : List Char) : Scans (',' :: cs) [.comma] cs := Scans.sign rfl rfl

theorem Scans.spaces (blank : ∀ c ∈ cs, isSpace c = true) (rest : List Char) :
    Scans (cs ++ rest) [] rest := by
  induction cs with
  | nil => exact Scans.refl rest
  | cons c cs ih =>
    obtain ⟨n, hn, further⟩ := ih fun d hd => blank d (by simp [hd])
    refine ⟨n + 1, by simp at hn ⊢; omega, fun fuel done => ?_⟩
    rw [← Nat.add_assoc, List.cons_append, scanFrom, if_pos (blank c (by simp))]
    exact further fuel done

private theorem Scans.scan_eq (whole : Scans cs ts []) : scan cs = some ts := by
  obtain ⟨n, hn, steps⟩ := whole
  have enough : cs.length = cs.length - n + n := by
    rw [List.length_nil] at hn
    omega
  have ended := steps (cs.length - n) []
  rw [← enough] at ended
  rw [scan, ended]
  simp [scanFrom]

theorem Scans.newLine (level : Nat) (rest : List Char) :
    Scans ((newLine level).toList ++ rest) [] rest := by
  apply Scans.spaces
  intro c hc
  simp only [Json.newLine, String.toList_append, String.toList_ofList, List.mem_append,
    List.mem_replicate] at hc
  rcases hc with hc | ⟨-, rfl⟩
  · have : c = '\n' := by simpa using hc
    simp [this, isSpace]
  · rfl

theorem Scans.quote (s : String) (rest : List Char) :
    Scans ((quote s).toList ++ rest) [.text (some s)] rest := by
  have spelled : (Json.quote s).toList ++ rest =
      '"' :: (s.toList.flatMap escapeChar ++ '"' :: rest) := by
    simp [Json.quote]
  rw [spelled]
  exact Scans.token rfl (next?_quoted s rest) (by simp; omega)

private theorem next?_number {c : Char} (first : BeginsNumber c) (cs : List Char) :
    next? c cs = (Literal.read? (c :: cs)).map fun p => (.scalar p.1.value, p.2) := by
  have other : c ∉ ['[', ']', '{', '}', ',', ':', '"', 'n', 't', 'f'] := first.not_mem rfl
  unfold next?
  split
  case h_11 => rfl
  all_goals simp at other

theorem Scans.integer {n : Int} (fits : n.natAbs < UInt64.size) (after : EndsNumber rest) :
    Scans ((toString n).toList ++ rest) [.scalar (.integer n)] rest := by
  have read := Literal.read?_toString n after
  obtain ⟨c, cs, spelled, first⟩ := Literal.toString_eq_cons n
  rw [spelled, List.cons_append] at read ⊢
  have solid : isSpace c = false := by
    have other : c ∉ [' ', '\t', '\n', '\r'] := first.not_mem rfl
    simpa [isSpace, and_assoc] using other
  apply Scans.token solid
  · rw [next?_number first, read, Option.map_some, Literal.value_ofInt fits]
  · simp

private theorem endsNumber_newLine (level : Nat) (cs : List Char) :
    EndsNumber ((newLine level).toList ++ cs) := by
  simp [EndsNumber, Text.NoDigit, Json.newLine]

private theorem endsNumber_items (level : Nat) (vs : List Json) (cs : List Char) :
    EndsNumber ((writeItems (level + 1) vs).toList ++ ((newLine level).toList ++ cs)) := by
  cases vs with
  | nil => simpa [writeItems] using endsNumber_newLine level cs
  | cons v vs => simp [writeItems, EndsNumber, Text.NoDigit]

private theorem endsNumber_members (level : Nat) (ms : List (String × Json)) (cs : List Char) :
    EndsNumber ((writeMembers (level + 1) ms).toList ++ ((newLine level).toList ++ cs)) := by
  cases ms with
  | nil => simpa [writeMembers] using endsNumber_newLine level cs
  | cons m ms => simp [writeMembers, EndsNumber, Text.NoDigit]

/-- `Written v`: at every level and before whatever ends a number, the text of `v` is scanned as its
tokens. -/
def Written (v : Json) : Prop :=
  ∀ level rest, EndsNumber rest → Scans ((writeAt level v).toList ++ rest) (tokens v) rest

theorem Scans.items (level : Nat) {vs : List Json} (written : ∀ v ∈ vs, Written v)
    (cs : List Char) :
    Scans ((writeItems (level + 1) vs).toList ++ ((Json.newLine level).toList ++ cs))
      (tokensOfItems vs)
      ((Json.newLine level).toList ++ cs) := by
  induction vs with
  | nil => exact Scans.refl _
  | cons v vs ih =>
    have here := written v (by simp) (level + 1) _ (endsNumber_items level vs cs)
    have others := ih fun w hw => written w (by simp [hw])
    have whole := (Scans.comma _).trans ((Scans.newLine (level + 1) _).trans (here.trans others))
    simpa [writeItems, tokensOfItems] using whole

theorem Scans.member (level : Nat) (k : String) {v : Json} (written : Written v)
    (after : EndsNumber rest) :
    Scans ((Json.quote k).toList ++ ':' :: ' ' :: ((writeAt level v).toList ++ rest))
      (.text (some k) :: .colon :: tokens v) rest := by
  have colon : ∀ cs, Scans (':' :: cs) [.colon] cs := fun cs => Scans.sign rfl rfl
  have blank : ∀ cs, Scans ([' '] ++ cs) [] cs := Scans.spaces (by simp [isSpace])
  exact (Scans.quote k _).trans ((colon _).trans ((blank _).trans (written level rest after)))

theorem Scans.members (level : Nat) {ms : List (String × Json)} (written : ∀ m ∈ ms, Written m.2)
    (cs : List Char) :
    Scans ((writeMembers (level + 1) ms).toList ++ ((Json.newLine level).toList ++ cs))
      (tokensOfMembers ms) ((Json.newLine level).toList ++ cs) := by
  induction ms with
  | nil => exact Scans.refl _
  | cons m ms ih =>
    obtain ⟨k, v⟩ := m
    have here := Scans.member (level + 1) k (written (k, v) (by simp))
      (endsNumber_members level ms cs)
    have others := ih fun m hm => written m (by simp [hm])
    have whole := (Scans.comma _).trans ((Scans.newLine (level + 1) _).trans (here.trans others))
    simpa [writeMembers, tokensOfMembers] using whole

end Token

open Token in
theorem Portable.written {v : Json} (portable : Portable v) : Written v := by
  induction portable with
  | null =>
    intro level rest _
    have word : Scans ('n' :: 'u' :: 'l' :: 'l' :: rest) [.scalar .null] rest :=
      Scans.token rfl rfl (by simp; omega)
    simpa [writeAt, tokens] using word
  | bool b =>
    intro level rest _
    cases b with
    | false =>
      have word : Scans ('f' :: 'a' :: 'l' :: 's' :: 'e' :: rest) [.scalar (.bool false)] rest :=
        Scans.token rfl rfl (by simp; omega)
      simpa [writeAt, tokens] using word
    | true =>
      have word : Scans ('t' :: 'r' :: 'u' :: 'e' :: rest) [.scalar (.bool true)] rest :=
        Scans.token rfl rfl (by simp; omega)
      simpa [writeAt, tokens] using word
  | integer fits => exact fun _ _ after => Scans.integer fits after
  | string s => exact fun _ rest _ => Scans.quote s rest
  | @array items _ ih =>
    intro level rest _
    have opens : ∀ cs, Scans ('[' :: cs) [.beginArray] cs := fun cs => Scans.sign rfl rfl
    have closes : Scans (']' :: rest) [.endArray] rest := Scans.sign rfl rfl
    cases items with
    | nil => simpa [writeAt, tokens] using (opens _).trans closes
    | cons v vs =>
      have first := ih v (by simp) (level + 1) _ (endsNumber_items level vs (']' :: rest))
      have further : ∀ w ∈ vs, Written w := fun w hw => ih w (by simp [hw])
      have others := Scans.items level further (']' :: rest)
      have ending := (Scans.newLine level _).trans closes
      have whole := (opens _).trans ((Scans.newLine (level + 1) _).trans
        (first.trans (others.trans ending)))
      simpa [writeAt, tokens] using whole
  | @object members _ _ ih =>
    intro level rest _
    have opens : ∀ cs, Scans ('{' :: cs) [.beginObject] cs := fun cs => Scans.sign rfl rfl
    have closes : Scans ('}' :: rest) [.endObject] rest := Scans.sign rfl rfl
    cases members with
    | nil => simpa [writeAt, tokens] using (opens _).trans closes
    | cons m ms =>
      obtain ⟨k, v⟩ := m
      have first := Scans.member (level + 1) k (ih (k, v) (by simp))
        (endsNumber_members level ms ('}' :: rest))
      have further : ∀ m ∈ ms, Written m.2 := fun m hm => ih m (by simp [hm])
      have others := Scans.members level further ('}' :: rest)
      have ending := (Scans.newLine level _).trans closes
      have whole := (opens _).trans ((Scans.newLine (level + 1) _).trans
        (first.trans (others.trans ending)))
      simpa [writeAt, tokens] using whole

private theorem tokens_head (v : Json) : ∃ t ts, tokens v = t :: ts ∧ t ≠ .endArray := by
  rcases v with _ | _ | _ | _ | _ | ⟨_ | ⟨v, vs⟩⟩ | ⟨_ | ⟨⟨k, v⟩, ms⟩⟩ | _ <;> simp [tokens]

private theorem run_firstItem (v : Json) (stack : List Frame) (ts : List Token) :
    run .firstItem stack (tokens v ++ ts) = run .value (.array [] :: stack) (tokens v ++ ts) := by
  obtain ⟨t, us, spelled, other⟩ := tokens_head v
  have same : step .firstItem stack t = step .value (.array [] :: stack) t := by
    cases t with
    | endArray => exact absurd rfl other
    | _ => rfl
  rw [spelled, List.cons_append, run, run, same]

private theorem ofMembers_some (ms : List (String × Json)) :
    ofMembers (ms.map fun m => (some m.1, m.2)) = .object ms := by
  have keyed : (ms.map fun m => (some m.1, m.2)).mapM (fun m => m.1.map (·, m.2)) = some ms := by
    induction ms with
    | nil => rfl
    | cons m ms ih => simp [ih]
  rw [ofMembers, keyed]

mutual

/-- The machine takes the tokens of a value to that value. -/
private theorem run_tokens (v : Json) (stack : List Frame) (ts : List Token) :
    run .value stack (tokens v ++ ts) = run (.afterValue v) stack ts := by
  match v with
  | .null | .bool _ | .integer _ | .decimal _ _ _ | .string _ | .unreadable => rfl
  | .array [] => rfl
  | .array (v :: vs) =>
    have first := run_firstItem v stack (tokensOfItems vs ++ .endArray :: ts)
    have others := run_tokensOfItems vs v [] stack ts
    rw [run_tokens v] at first
    simpa [tokens, run, step, beginValue] using first.trans others
  | .object [] => rfl
  | .object ((k, v) :: ms) =>
    have first := run_tokens v (.member [] (some k) :: stack)
      (tokensOfMembers ms ++ .endObject :: ts)
    have others := run_tokensOfMembers ms k v [] stack ts
    simpa [tokens, run, step, beginValue] using first.trans others

private theorem run_tokensOfItems (vs : List Json) (v : Json) (done : List Json)
    (stack : List Frame) (ts : List Token) :
    run (.afterValue v) (.array done :: stack) (tokensOfItems vs ++ .endArray :: ts) =
      run (.afterValue (.array ((v :: done).reverse ++ vs))) stack ts := by
  match vs with
  | [] => simp [tokensOfItems, run, step]
  | w :: vs =>
    have next := run_tokens w (.array (v :: done) :: stack) (tokensOfItems vs ++ .endArray :: ts)
    have others := run_tokensOfItems vs w (v :: done) stack ts
    simpa [tokensOfItems, run, step] using next.trans others

private theorem run_tokensOfMembers (ms : List (String × Json)) (k : String) (v : Json)
    (done : List (String × Json)) (stack : List Frame) (ts : List Token) :
    run (.afterValue v) (.member (done.map fun m => (some m.1, m.2)) (some k) :: stack)
        (tokensOfMembers ms ++ .endObject :: ts) =
      run (.afterValue (.object (((k, v) :: done).reverse ++ ms))) stack ts := by
  match ms with
  | [] =>
    have closed := ofMembers_some ((k, v) :: done).reverse
    rw [List.map_reverse, List.map_cons] at closed
    rw [List.append_nil, ← closed]
    rfl
  | (j, w) :: ms =>
    have next := run_tokens w
      (.member (((k, v) :: done).map fun m => (some m.1, m.2)) (some j) :: stack)
      (tokensOfMembers ms ++ .endObject :: ts)
    have others := run_tokensOfMembers ms j w ((k, v) :: done) stack ts
    simpa [tokensOfMembers, run, step] using next.trans others

end

open Token in
/-- A portable document is read back from its text, and blanks after it are passed over. -/
theorem Portable.parse?_pretty_append {v : Json} (portable : Portable v) (blanks : String)
    (blank : ∀ c ∈ blanks.toList, isSpace c = true) (apart : EndsNumber blanks.toList) :
    parse? (v.pretty ++ blanks) = some v := by
  have written := portable.written 0 blanks.toList apart
  have passed := Scans.spaces blank []
  rw [List.append_nil] at passed
  have scanned := (written.trans passed).scan_eq
  have read := run_tokens v [] []
  rw [List.append_nil] at scanned read
  rw [parse?, pretty, String.toList_append, scanned, Option.bind_eq_bind, Option.bind_some, read]
  rfl

theorem Portable.parse?_pretty {v : Json} (portable : Portable v) : parse? v.pretty = some v := by
  have read := portable.parse?_pretty_append "" (by simp) (by simp [EndsNumber, Text.NoDigit])
  rwa [String.append_empty] at read

end CloudPolicy.Json
