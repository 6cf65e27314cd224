import TemplateLex.Proofs.RoundTrip

/-! The operator scan is maximal munch. It reads the longest prefix that begins some spelling, and in
the table every such prefix that a spelling begins is a spelling itself, so the scan never passes an
operator it then has to give back. -/
namespace TemplateLex

/-- `m` begins one of the spellings `cands`. -/
def BeginsSome (cands : List (List Char)) (m : List Char) : Prop := ∃ l ∈ cands, m <+: l

/-- `m` is the longest prefix of `u` that begins one of the spellings `cands`. -/
def LongestBeginning (cands : List (List Char)) (u m : List Char) : Prop :=
  m <+: u ∧ BeginsSome cands m ∧ ∀ m', m' <+: u → BeginsSome cands m' → m'.length ≤ m.length

section Narrowing

variable {cands : List (List Char)}

theorem beginsSome_cons {c : Char} {m : List Char} :
    BeginsSome cands (c :: m) ↔ BeginsSome ((cands.filter (·.head? = some c)).map List.tail) m := by
  constructor
  · rintro ⟨l, member, t, rfl⟩
    refine ⟨m ++ t, List.mem_map.mpr ⟨c :: m ++ t, List.mem_filter.mpr ⟨member, by simp⟩, rfl⟩,
      List.prefix_append m t⟩
  · rintro ⟨l, inMap, leading⟩
    obtain ⟨l₀, inFilter, rfl⟩ := List.mem_map.mp inMap
    obtain ⟨member, head⟩ := List.mem_filter.mp inFilter
    cases l₀ with
    | nil => simp at head
    | cons c₀ tail =>
      have same : c₀ = c := by simpa using head
      subst same
      exact ⟨c₀ :: tail, member, List.cons_prefix_cons.mpr ⟨rfl, leading⟩⟩

theorem beginsSome_nil (nonempty : cands ≠ []) : BeginsSome cands [] := by
  obtain ⟨l, member⟩ := List.exists_mem_of_ne_nil cands nonempty
  have empty : [] <+: l := List.nil_prefix
  exact ⟨l, member, empty⟩

/-- Narrowing the candidates down character by character reads the longest prefix that begins one
of them. -/
theorem longestBeginning_longestRun (nonempty : cands ≠ []) (u : List Char) :
    LongestBeginning cands u (longestRun operatorStep cands u) := by
  -- the induction follows the input, the candidates narrowing down with it
  induction u generalizing cands with
  | nil =>
    have empty : ([] : List Char) <+: [] := List.nil_prefix
    refine ⟨empty, beginsSome_nil nonempty, fun m' leading _ => ?_⟩
    rw [List.prefix_nil.mp leading]
    simp
  | cons c u ih =>
    unfold longestRun
    cases step : operatorStep cands c with
    | none =>
      have empty : [] <+: c :: u := List.nil_prefix
      refine ⟨empty, beginsSome_nil nonempty, fun m' leading begins => ?_⟩
      cases m' with
      | nil => simp
      | cons c' m'' =>
        obtain ⟨rfl, -⟩ := List.cons_prefix_cons.mp leading
        obtain ⟨l, inNext, -⟩ := beginsSome_cons.mp begins
        have notEmpty := List.ne_nil_of_mem inNext
        unfold operatorStep at step
        dsimp only at step
        rw [if_neg (by simpa using notEmpty)] at step
        cases step
    | some next =>
      have narrowed : (cands.filter (·.head? = some c)).map List.tail = next ∧ next ≠ [] := by
        unfold operatorStep at step
        dsimp only at step
        split at step
        · cases step
        · rename_i notEmpty
          have same := Option.some.inj step
          refine ⟨same, ?_⟩
          rw [← same]
          simpa using notEmpty
      obtain ⟨leading, begins, longest⟩ := ih narrowed.2
      refine ⟨List.cons_prefix_cons.mpr ⟨rfl, leading⟩, beginsSome_cons.mpr (narrowed.1 ▸ begins),
        fun m' leading' begins' => ?_⟩
      cases m' with
      | nil => simp
      | cons c' m'' =>
        obtain ⟨rfl, tail⟩ := List.cons_prefix_cons.mp leading'
        have shorter := longest m'' tail (narrowed.1 ▸ beginsSome_cons.mp begins')
        simpa using shorter

theorem LongestBeginning.eq {u m m' : List Char} (first : LongestBeginning cands u m)
    (second : LongestBeginning cands u m') : m = m' := by
  have le := second.2.2 m first.1 first.2.1
  have ge := first.2.2 m' second.1 second.2.1
  exact (List.prefix_of_prefix_length_le first.1 second.1 le).eq_of_length (by omega)

end Narrowing

section Table

/-- A prefix of a spelling that is at least as long as a spelling it starts with is a spelling:
no operator is spelled with an unknown word in the middle. -/
theorem mem_operatorSpellings_of_between {m sp : List Char} (begins : BeginsSome operatorSpellings m)
    (member : sp ∈ operatorSpellings) (leading : sp <+: m) : m ∈ operatorSpellings := by
  have checked : ∀ l ∈ operatorSpellings, ∀ m ∈ l.inits, ∀ sp ∈ operatorSpellings,
      sp <+: m → m ∈ operatorSpellings := by
    decide
  obtain ⟨l, inTable, start⟩ := begins
  exact checked l inTable m ((List.mem_inits m l).mpr start) sp member leading

theorem operatorToken_infixOp (op : InfixOp) : operatorToken op.spelling = .ok (.infixOp op) := by
  cases op <;> rfl

theorem operatorToken_not : operatorToken "!" = .ok (.prefixOp .not) := rfl

theorem operatorToken_unknown {m : List Char} (notInfix : ∀ op : InfixOp, m ≠ op.spelling.toList)
    (notNot : m ≠ ['!']) :
    operatorToken (String.ofList m) = .error (.unknownOperator (String.ofList m)) := by
  have notFound : InfixOp.ofSpelling? (String.ofList m) = none := by
    rw [InfixOp.ofSpelling?, List.find?_eq_none]
    intro op _ same
    apply notInfix op
    have spelled : op.spelling = String.ofList m := by simpa using same
    rw [spelled, String.toList_ofList]
  have notNotFound : PrefixOp.ofSpelling? (String.ofList m) = none := by
    rw [PrefixOp.ofSpelling?, List.find?_eq_none]
    intro op _ same
    cases op
    apply notNot
    have spelled : "!" = String.ofList m := of_decide_eq_true same
    have back : m = (String.ofList m).toList := String.toList_ofList.symm
    rw [back, ← spelled]
    rfl
  simp [operatorToken, notFound, notNotFound]

theorem operatorToken_ok {text : String} {t : Token} (ok : operatorToken text = .ok t) :
    t.render = text ∧ text.toList ∈ operatorSpellings := by
  unfold operatorToken at ok
  cases found : InfixOp.ofSpelling? text with
  | some op =>
    rw [found] at ok
    cases ok
    have spelled : op.spelling = text := by simpa using List.find?_some found
    subst spelled
    exact ⟨rfl, by cases op <;> decide⟩
  | none =>
    rw [found] at ok
    cases foundNot : PrefixOp.ofSpelling? text with
    | some op =>
      rw [foundNot] at ok
      cases ok
      have spelled : op.spelling = text := by simpa using List.find?_some foundNot
      subst spelled
      exact ⟨rfl, by cases op; decide⟩
    | none =>
      rw [foundNot] at ok
      cases ok

theorem operatorToken_of_mem {m : List Char} (member : m ∈ operatorSpellings) :
    ∃ t, operatorToken (String.ofList m) = .ok t := by
  simp only [operatorSpellings, List.mem_append, List.mem_map] at member
  rcases member with ⟨op, -, rfl⟩ | ⟨op, -, rfl⟩
  · cases op
    exact ⟨_, operatorToken_not⟩
  · rw [String.ofList_toList]
    exact ⟨_, operatorToken_infixOp op⟩

end Table

section Step

theorem isOperatorStart_of_begins {x : Char} (start : BeginsSome operatorSpellings [x]) :
    isOperatorStart x = true := by
  obtain ⟨sp, member, leading⟩ := start
  obtain ⟨tail, rfl⟩ := leading
  exact List.any_eq_true.mpr ⟨[x] ++ tail, member, by simp⟩

theorem LongestBeginning.mem_of_spelling {u m sp : List Char}
    (longest : LongestBeginning operatorSpellings u m) (member : sp ∈ operatorSpellings)
    (leading : sp <+: u) : m ∈ operatorSpellings := by
  have shorter := longest.2.2 sp leading ⟨sp, member, List.prefix_refl sp⟩
  exact mem_operatorSpellings_of_between longest.2.1 member
    (List.prefix_of_prefix_length_le leading longest.1 shorter)

theorem scanToken_operator {x : Char} {u m : List Char}
    (start : BeginsSome operatorSpellings [x])
    (longest : LongestBeginning operatorSpellings (x :: u) m) :
    scanToken (x :: u) = endRun m ((x :: u).drop m.length) (operatorToken (String.ofList m)) := by
  have run : operatorRun (x :: u) = m :=
    (longestBeginning_longestRun (by decide) (x :: u)).eq longest
  rw [scanToken_operatorChar (mem_operatorChars (isOperatorStart_of_begins start))]
  unfold scanOperator
  rw [run]

theorem step_at_operator {c : Cursor} {w u m : List Char} {x : Char}
    (split : c.rest = w ++ x :: u) (blank : Blanks w)
    (start : BeginsSome operatorSpellings [x])
    (longest : LongestBeginning operatorSpellings (x :: u) m) :
    c.step = (if x :: u = m then .error ⟨.unexpectedEnd, (c.skip (w.length + m.length)).location⟩
      else match operatorToken (String.ofList m) with
        | .ok t => .ok ⟨t, c.location.advanceAll w⟩
        | .error k => .error ⟨k, (c.skip (w.length + m.length)).location⟩,
      c.skip (w.length + m.length)) := by
  have operator : x ∈ operatorChars := mem_operatorChars (isOperatorStart_of_begins start)
  have stop : isBlank x = false := by
    have checked : operatorChars.all (fun y => !isBlank y) = true := by decide
    simpa using List.all_eq_true.mp checked x operator
  have scan := scanToken_operator start longest
  have nonempty : m ≠ [] := by
    intro empty
    have one := longest.2.2 [x] (List.cons_prefix_cons.mpr ⟨rfl, List.nil_prefix⟩) start
    simp [empty] at one
  obtain ⟨after, whole⟩ := longest.1
  have rest : (x :: u).drop m.length = after := by rw [← whole, List.drop_left]
  rw [Cursor.step_of_blanks split blank stop, scan, rest]
  by_cases ends : x :: u = m
  · have done : after = [] := by
      rw [← ends] at whole
      simpa using whole
    simp [endRun, nonempty, done, ends]
  · have pending : after ≠ [] := by
      rintro rfl
      exact ends (by simpa using whole.symm)
    obtain ⟨y, after', rfl⟩ := List.exists_cons_of_ne_nil pending
    -- the two matches on the looked-up operator are separate definitions: take its cases
    cases operatorToken (String.ofList m) <;> simp [endRun_follow nonempty, ends]

/-- The operator scan is maximal munch. At blanks and then a character that starts some operator,
a step reads the blanks and the longest prefix `m` of what follows them that begins a spelling.
If `m` is all that is left the input ended inside the token. Otherwise `m` is looked up: an infix
operator, the prefix `!`, or an unknown operator. The step then makes an operator exactly when some
spelling begins the input after the blanks, and that operator is the longest such spelling. -/
theorem step_operator_longest_match {c : Cursor} {w u m : List Char} {x : Char}
    (split : c.rest = w ++ x :: u) (blank : Blanks w)
    (start : BeginsSome operatorSpellings [x])
    (longest : LongestBeginning operatorSpellings (x :: u) m) :
    let after := c.skip (w.length + m.length)
    let here := c.location.advanceAll w
    c.step.2 = after ∧
      (x :: u = m → c.step.1 = .error ⟨.unexpectedEnd, after.location⟩) ∧
      (x :: u ≠ m →
        (∀ op : InfixOp, m = op.spelling.toList → c.step.1 = .ok ⟨.infixOp op, here⟩) ∧
        (m = ['!'] → c.step.1 = .ok ⟨.prefixOp .not, here⟩) ∧
        ((∀ op : InfixOp, m ≠ op.spelling.toList) → m ≠ ['!'] →
          c.step.1 = .error ⟨.unknownOperator (String.ofList m), after.location⟩) ∧
        ((∃ t, c.step.1 = .ok t) ↔ ∃ sp ∈ operatorSpellings, sp <+: x :: u) ∧
        ∀ t, c.step.1 = .ok t →
          t.value.render.toList ∈ operatorSpellings ∧ t.value.render.toList <+: x :: u ∧
            ∀ sp ∈ operatorSpellings, sp <+: x :: u → sp.length ≤ t.value.render.length) := by
  intro after here
  have step := step_at_operator split blank start longest
  refine ⟨by rw [step], fun ends => by rw [step, if_pos ends], fun pending => ?_⟩
  rw [step, if_neg pending]
  dsimp only
  refine ⟨fun op spelled => ?_, fun spelled => ?_, fun notInfix notNot => ?_, ?_, ?_⟩
  · rw [spelled, String.ofList_toList, operatorToken_infixOp]
  · rw [spelled]
    rfl
  · rw [operatorToken_unknown notInfix notNot]
  · constructor
    · rintro ⟨t, ok⟩
      cases token : operatorToken (String.ofList m) with
      | error k => rw [token] at ok; cases ok
      | ok t' =>
        have spelled := (operatorToken_ok token).2
        rw [String.toList_ofList] at spelled
        exact ⟨m, spelled, longest.1⟩
    · rintro ⟨sp, member, leading⟩
      obtain ⟨t', token⟩ := operatorToken_of_mem (longest.mem_of_spelling member leading)
      exact ⟨⟨t', here⟩, by rw [token]⟩
  · intro t ok
    cases token : operatorToken (String.ofList m) with
    | error k => rw [token] at ok; cases ok
    | ok t' =>
      rw [token] at ok
      cases ok
      obtain ⟨written, spelled⟩ := operatorToken_ok token
      rw [String.toList_ofList] at spelled
      have text : t'.render.toList = m := by rw [written, String.toList_ofList]
      refine ⟨text ▸ spelled, text ▸ longest.1, fun sp member leading => ?_⟩
      have shorter := longest.2.2 sp leading ⟨sp, member, List.prefix_refl sp⟩
      rw [← String.length_toList, text]
      exact shorter

theorem softNotEquals_before_name :
    ((Cursor.ofList [' ', '!', '=', 'x']).rest = [' '] ++ '!' :: ['=', 'x'] ∧ Blanks [' '] ∧
      BeginsSome operatorSpellings ['!'] ∧
      LongestBeginning operatorSpellings ['!', '=', 'x'] ['!', '=']) ∧
    (Cursor.ofList [' ', '!', '=', 'x']).step.1 = .ok ⟨.infixOp .softNotEquals, ⟨1, 2⟩⟩ ∧
    (Cursor.ofList [' ', '!', '=', 'x']).step.2 = (Cursor.ofList [' ', '!', '=', 'x']).skip 3 := by
  have split : (Cursor.ofList [' ', '!', '=', 'x']).rest = [' '] ++ '!' :: ['=', 'x'] := rfl
  have blank : Blanks [' '] := by decide
  have start : BeginsSome operatorSpellings ['!'] := ⟨['!'], by decide, List.prefix_refl _⟩
  have longest : LongestBeginning operatorSpellings ['!', '=', 'x'] ['!', '='] := by
    have run := longestBeginning_longestRun (by decide : operatorSpellings ≠ []) ['!', '=', 'x']
    rwa [show longestRun operatorStep operatorSpellings ['!', '=', 'x'] = ['!', '='] by decide] at run
  obtain ⟨moved, -, read⟩ := step_operator_longest_match split blank start longest
  exact ⟨⟨split, blank, start, longest⟩, (read (by decide)).1 .softNotEquals rfl, moved⟩

end Step

end TemplateLex
