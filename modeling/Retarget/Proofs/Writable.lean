import Retarget.Proofs.Extension
import Retarget.Proofs.Filled
import Retarget.Proofs.Interactive

/-!
# Writing the values of variables

Can every value of its variables be written in the format of a rule, so that the line is assembled?
Not every one: a token may be no word or have capital letters, while a line is matched in lower
case; two slots may stand side by side; and a line loses its comment, its label, the blanks around
it, and all that a directive has, before it is matched (`unwritable_samples`).

Otherwise the values are captured as they are written (`Filled`), each of them makes a field, and so
the rule accepts the line.  The rules in front of it may take the line first or refuse it, but none
of them keeps it from being emitted (`emits_written`).  What is left are limits to what can be held.
-/

namespace Retarget

/-! ## Values of variables -/

/-- Whether a text is in the domain of a variable: a token whose place fits into the field, or a
numeral of a number that does. -/
def Variable.offers (v : Variable) (value : String) : Bool :=
  match v.domain with
  | .tokens names => (tokenIndex? names value).any (· < 2 ^ v.bits)
  | .number .. => (numeral? value.toList).any (· < 2 ^ v.bits)

/-- Whether a text is in the domain of the variable of a name, and `good` if it is a token. -/
def Arch.Offers (arch : Arch) (good : String → Prop) (name value : String) : Prop :=
  ∃ v, arch.find? name = some v ∧ v.offers value = true ∧
    (Rule.operandKind v = .token → good value)

instance (arch : Arch) (good : String → Prop) [DecidablePred good] (name value : String) :
    Decidable (arch.Offers good name value) :=
  decidable_of_iff (∃ v ∈ (arch.find? name).toList, v.offers value = true ∧
    (Rule.operandKind v = .token → good value)) (by simp only [Option.mem_toList]; exact Iff.rfl)

/-- Whether a text is a word. -/
def Text.IsName (s : String) : Prop :=
  s.toList ≠ [] ∧ ∀ c ∈ s.toList, Text.isWord c = true

instance : DecidablePred Text.IsName := fun s =>
  decidable_of_iff (s.toList ≠ [] ∧ s.toList.all Text.isWord = true)
    (and_congr_right' List.all_eq_true)

/-- Whether a text is in lower case. -/
def Text.IsLower (s : String) : Prop :=
  ∀ c ∈ s.toList, Text.lowerChar c = c

instance : DecidablePred Text.IsLower := fun s =>
  decidable_of_iff (s.toList.all (fun c => Text.lowerChar c == c) = true)
    (by simp only [List.all_eq_true, beq_iff_eq, Text.IsLower])

/-- A numeral is read as its number, or is too long to be read. -/
theorem parse_of_numeral? {s : List Char} {n : Nat} (h : numeral? s = some n) {value : Int}
    (hvalue : Literal.parse (String.ofList s) = .ok value) : value = n := by
  have hinner := (Format.isInner_of_admits (takes_of_numeral? h).admits).2
  have htrim : Text.trim s = s :=
    Text.trim_of_ends
      (fun c hc => Format.not_isBlank_of_isInner (hinner c (List.mem_of_mem_head? hc)))
      (fun c hc => Format.not_isBlank_of_isInner (hinner c (List.mem_of_mem_getLast? hc)))
  rw [Literal.parse, String.toList_ofList, htrim] at hvalue
  rcases numeral?_eq_some h with ⟨digits, rfl, hne, hdigits, rfl⟩ | ⟨hne, hdigits, rfl⟩
  · simp only [Literal.readTrimmed, Literal.readHex] at hvalue
    split at hvalue
    · cases hvalue
    · cases hvalue
      rfl
  · -- A decimal numeral starts with neither of the two signs.
    cases s with
    | nil => exact absurd rfl hne
    | cons c rest =>
      have hc := hdigits c List.mem_cons_self
      unfold Literal.readTrimmed at hvalue
      split at hvalue
      · rename_i heq
        cases heq
      · rename_i heq
        cases heq
        cases hc
      · rename_i heq
        cases heq
        cases hc
      · unfold Literal.readDecimal at hvalue
        split at hvalue
        · cases hvalue
        · split at hvalue
          · cases hvalue
          · cases hvalue
            rfl

/-! ## Rules and their filled formats -/

/-- The format of a rule with values in its slots. -/
def Rule.written (rule : Rule) (values : List String) : String :=
  String.ofList (Format.fill (Format.pieces rule.source.format.toList) values)

section Offers

variable {arch : Arch} {name value : String}

theorem Arch.Offers.and {good better : String → Prop} (h : arch.Offers good name value)
    (h' : arch.Offers better name value) :
    arch.Offers (fun s => good s ∧ better s) name value := by
  obtain ⟨v, hv, hoffers, hgood⟩ := h
  obtain ⟨u, hu, -, hbetter⟩ := h'
  obtain rfl : v = u := Option.some.inj (hv.symm.trans hu)
  exact ⟨v, hv, hoffers, fun hkind => ⟨hgood hkind, hbetter hkind⟩⟩

/-- A text looks like a value of a variable if it is a word where the value is a token, and a
numeral where the value is one. -/
theorem Arch.Offers.takes {good : String → Prop} (h : arch.Offers good name value) {w : List Char}
    (htoken : good value → Format.Operand.token.Takes w)
    (hnumber : ∀ n, numeral? value.toList = some n → numeral? w = some n) :
    (Rule.kindAt arch.scope name).Takes w := by
  obtain ⟨v, hv, hoffers, hgood⟩ := h
  have hscope : arch.scope name = some (.known v) := by rw [Arch.scope, hv, Option.map_some]
  rw [kindAt_known hscope]
  unfold Variable.offers at hoffers
  unfold Rule.operandKind at hgood ⊢
  cases hdomain : v.domain with
  | tokens names =>
    simp only [hdomain, forall_const] at hgood ⊢
    exact htoken hgood
  | number relative offset =>
    simp only [hdomain] at hoffers ⊢
    obtain ⟨n, hn, -⟩ := (Option.any_eq_true _ _).1 hoffers
    exact takes_of_numeral? (hnumber n hn)

end Offers

/-- The format of a rule is not empty. -/
theorem RuleSource.format_ne_empty {index : Nat} {entry : Document} {source : RuleSource}
    (h : ofDocument index entry = .ok source) : source.format ≠ "" := by
  unfold ofDocument ofParts at h
  split at h
  · split at h
    · split at h
      · cases h
      · rename_i hne
        split at h
        · cases h
          exact hne
        · cases h
    · cases h
  · cases h

theorem RuleSource.format_ne_empty_of_mem {index : Nat} {entries : List Document}
    {rules : List RuleSource} (h : ofDocuments index entries = .ok rules) {source : RuleSource}
    (hsource : source ∈ rules) : source.format ≠ "" := by
  induction entries generalizing index rules with
  | nil =>
    cases h
    cases hsource
  | cons entry rest ih =>
    unfold ofDocuments at h
    rcases hfirst : ofDocument index entry with error | first
    · rw [hfirst] at h
      cases h
    rcases hmore : ofDocuments (index + 1) rest with error | more
    · rw [hfirst, hmore] at h
      cases h
    rw [hfirst, hmore] at h
    cases h
    rcases List.mem_cons.1 hsource with rfl | hsource
    · exact format_ne_empty hfirst
    · exact ih hmore hsource

theorem exists_of_forall₂_getElem? {α β : Type} {related : α → β → Prop} {xs : List α}
    {ys : List β} (h : List.Forall₂ related xs ys) {i : Nat} {x : α} (hx : xs[i]? = some x) :
    ∃ y, ys[i]? = some y ∧ related x y := by
  induction h generalizing i with
  | nil => cases hx
  | cons hfirst _ ih =>
    cases i with
    | zero =>
      cases hx
      exact ⟨_, rfl, hfirst⟩
    | succ i => exact ih hx

namespace Assembler

section Captures

variable {set : InstructionSet} {rule : Rule} {values : List String}

/-- A rule matches its format with words and numerals in its slots. -/
theorem captures_written (hrule : rule ∈ set.rules)
    (hvalues : List.Forall₂ (set.arch.Offers Text.IsName) rule.names values) :
    (rule.captures (rule.written values)).isSome = true := by
  obtain ⟨source, hsource⟩ := set.compile_of_mem hrule
  obtain ⟨-, layout, -, rfl⟩ := compile_iff.1 hsource
  have htakes : List.Forall₂ (fun name value => ∀ w, List.Forall₂ Eq value.toList w →
      (Rule.kindAt set.arch.scope name).Takes w)
        (Format.slotNames (Format.pieces source.format.toList)) values := by
    refine hvalues.imp fun name value hvalue w hw => ?_
    rw [List.forall₂_eq_eq_eq] at hw
    subst hw
    exact hvalue.takes id fun n => id
  obtain ⟨operands, hlays, -⟩ : ∃ operands, Format.Lays False _ _ operands ∧ _ :=
    Format.exists_lays_fill (fun h => .inl h.symm) (Format.isChain_pieces source.format.toList)
      False.elim htakes (List.forall₂_eq_eq_eq ▸ rfl)
  rw [Rule.captures, Option.isSome_map, Rule.written, String.toList_ofList]
  exact Format.captures_of_fits hlays.fits

/-- The operands of a filled format in lower case are the values in lower case. -/
theorem captures_lower_written (hrule : rule ∈ set.rules)
    (hvalues : List.Forall₂ (set.arch.Offers fun s => Text.IsName s ∧ Text.IsLower s)
      rule.names values)
    (hapart : Format.Apart (Format.pieces rule.source.format.toList))
    (hdot : 'İ' ∉ (rule.written values).toList) :
    ∃ operands, rule.captures (Text.lower (rule.written values)) = some operands ∧
      List.Forall₂ (fun value operand => ∃ w, operand = String.ofList w ∧
        List.Forall₂ Text.InCase value.toList w) values operands := by
  obtain ⟨source, hsource⟩ := set.compile_of_mem hrule
  obtain ⟨-, layout, -, rfl⟩ := compile_iff.1 hsource
  have htakes : List.Forall₂ (fun name value => ∀ w, List.Forall₂ Text.InCase value.toList w →
      (Rule.kindAt set.arch.scope name).Takes w)
        (Format.slotNames (Format.pieces source.format.toList)) values := by
    refine hvalues.imp fun name value hvalue w hw => ?_
    refine hvalue.takes ?_ fun n => numeral?_of_inCase hw
    rintro ⟨hname, hlower⟩
    rw [eq_of_inCase_lower hw hlower]
    exact hname
  rw [Rule.written, String.toList_ofList] at hdot
  obtain ⟨operands, hlays, hops⟩ := Format.exists_lays_fill id
    (Format.isChain_pieces source.format.toList) (fun _ => hapart) htakes
    (Text.forall₂_inCase_lowerFrom hdot false)
  refine ⟨operands.map String.ofList, ?_, ?_⟩
  · rw [Rule.captures, Rule.written, Text.lower, String.toList_ofList, String.toList_ofList,
      Format.captures_of_lays hlays, Option.map_some]
  · rw [List.forall₂_map_right_iff]
    exact hops.imp fun value w hw => ⟨w, rfl, hw⟩

end Captures

end Assembler

/-! ## Lines with nothing but an instruction -/

/-- Whether nothing is taken from a line before its instruction is looked at: it has no comment,
label or directive, and no blanks around it. -/
structure Statement.Bare (s : List Char) : Prop where
  trimmed : Text.trim s = s
  noComment : ';' ∉ s
  noDirective : isDirective s = false
  noLabel : splitLabel? s = none

theorem Statement.Bare.parse {line : String} (h : Bare line.toList) (hne : line.toList ≠ []) :
    parse line = ⟨none, .instruction (Text.lower line)⟩ := by
  rw [Statement.parse, dropComments_of_not_mem h.noComment, h.trimmed]
  simp only [h.noDirective, h.noLabel, bodyOf, List.isEmpty_iff, hne, if_false,
    String.ofList_toList, Bool.false_eq_true]

theorem Assembler.isLimit_of_ofOperands {fault : Fault} (h : fault.ofOperands = true)
    (hnot : ∀ rejection, fault ≠ .rejected rejection) : fault.isLimit = true := by
  cases fault with
  | rejected rejection => exact absurd rfl (hnot rejection)
  | _ => exact h

section

variable [Machine]

/-! ## Fields of values -/

namespace Field

/-- A number that fits makes a field, if such a field can be held. -/
theorem ofValue_of_lt {size : Nat} {value : Int} (hle : 0 ≤ value) (hlt : value < 2 ^ size)
    (pending : Option Pending) : (∃ field, ofValue size value pending = .ok field) ∨
      ∃ why, ofValue size value pending = .error (.excess why) := by
  rcases ofValue_cases size value pending with ⟨-, -, hok⟩ | ⟨-, hwide, -⟩ | ⟨why, -, herror⟩
  · exact .inl ⟨_, hok⟩
  · exact absurd ⟨hle, hlt⟩ hwide
  · exact .inr ⟨why, herror⟩

/-- **A value of a variable makes a field**, also in lower case, if its token is in lower case. -/
theorem ofOperand_of_offers {v : Variable} {value : String} (h : v.offers value = true)
    (hlower : Rule.operandKind v = .token → Text.IsLower value) {w : List Char}
    (hw : List.Forall₂ Text.InCase value.toList w) :
    (∃ field, ofOperand v (String.ofList w) = .ok field) ∨
      ∃ why, ofOperand v (String.ofList w) = .error (.excess why) := by
  unfold Variable.offers at h
  unfold Rule.operandKind at hlower
  unfold ofOperand
  cases hdomain : v.domain with
  | tokens names =>
    simp only [hdomain, forall_const] at h hlower ⊢
    obtain ⟨i, hi, hlt⟩ := (Option.any_eq_true _ _).1 h
    have hlt : i < 2 ^ v.bits := of_decide_eq_true hlt
    rw [eq_of_inCase_lower hw hlower, String.ofList_toList, hi]
    exact ofValue_of_lt (Int.natCast_nonneg i) (by exact_mod_cast hlt) none
  | number relative offset =>
    simp only [hdomain] at h ⊢
    obtain ⟨n, hn, hlt⟩ := (Option.any_eq_true _ _).1 h
    have hlt : n < 2 ^ v.bits := of_decide_eq_true hlt
    split
    · rename_i number hnumber
      rw [parse_of_numeral? (numeral?_of_inCase hw hn) hnumber]
      exact ofValue_of_lt (Int.natCast_nonneg n) (by exact_mod_cast hlt) none
    · exact ofValue_of_lt (Int.le_refl 0) (by positivity) _

end Field

/-! ## Rules of accepted documents -/

/-- The parts of an accepted document. -/
theorem Arch.ofDocument_eq_ok {name : String} {data : Document} {arch : Arch}
    (h : ofDocument name data = .ok arch) :
    ∃ entries vars rules, data = .object entries ∧ Document.key entries "vars" = .object vars ∧
      Document.key entries "rules" = .list rules ∧
      vars.mapM (fun entry => Variable.ofDocument entry.1 entry.2) = .ok arch.vars ∧
      RuleSource.ofDocuments 0 rules = .ok arch.rules := by
  unfold ofDocument at h
  split at h
  · rename_i entries
    split at h
    · rename_i vars rules hvars hrules
      simp only at h
      split at h
      · cases h
      · rcases hslots : vars.mapM (fun entry => Variable.ofDocument entry.1 entry.2) with
          fault | slots
        · rw [hslots] at h
          cases h
        rcases hread : RuleSource.ofDocuments 0 rules with error | read
        · rw [hslots, hread] at h
          cases h
        · rw [hslots, hread] at h
          cases h
          exact ⟨entries, vars, rules, rfl, hvars, hrules, hslots, hread⟩
    · cases h
    · cases h
  · cases h

/-- The rules of an accepted document have formats that are not empty. -/
theorem Arch.format_ne_empty {name : String} {data : Document} {arch : Arch}
    (h : ofDocument name data = .ok arch) {source : RuleSource} (hsource : source ∈ arch.rules) :
    source.format ≠ "" := by
  obtain ⟨_, _, _, -, -, -, -, hrules⟩ := ofDocument_eq_ok h
  exact RuleSource.format_ne_empty_of_mem hrules hsource

namespace Assembler

section Written

variable {set : InstructionSet} {rule : Rule} {values : List String}

/-- A filled format is not empty. -/
theorem written_ne_nil {name : String} {data : Document}
    (hset : InstructionSet.ofDocument name data = .ok set) (hrule : rule ∈ set.rules)
    (hvalues : List.Forall₂ (set.arch.Offers Text.IsName) rule.names values) :
    (rule.written values).toList ≠ [] := by
  obtain ⟨source, hmem, hsource⟩ := exists_of_mem_mapM set.compiled hrule
  have hformat : source.format.toList ≠ [] := by
    intro hnil
    refine Arch.format_ne_empty (InstructionSet.arch_of_ofDocument hset) hmem ?_
    exact String.toList_eq_nil_iff.1 hnil
  obtain ⟨-, layout, -, rfl⟩ := compile_iff.1 hsource
  rw [Rule.written, String.toList_ofList]
  refine Format.fill_ne_nil (Format.pieces_ne_nil hformat) (hvalues.imp fun name value hvalue => ?_)
  have htakes := hvalue.takes id fun n => id
  exact (Format.isInner_of_admits htakes.admits).1

/-- A rule makes an instruction of its filled format, if its fields can be held. -/
theorem encode_lower_written (hrule : rule ∈ set.rules)
    (hvalues : List.Forall₂ (set.arch.Offers fun s => Text.IsName s ∧ Text.IsLower s)
      rule.names values)
    (hapart : Format.Apart (Format.pieces rule.source.format.toList))
    (hdot : 'İ' ∉ (rule.written values).toList) :
    ∃ result, encode set.arch rule (Text.lower (rule.written values)) = some result ∧
      ∀ fault, result = .error fault → ∃ why, fault = .excess why := by
  obtain ⟨source, hsource⟩ := set.compile_of_mem hrule
  obtain ⟨operands, hcaptures, hops⟩ := captures_lower_written hrule hvalues hapart hdot
  have hfields := fields_encode set.arch rule (Text.lower (rule.written values))
  rw [hcaptures, Option.map_some, Option.map_eq_some_iff] at hfields
  obtain ⟨result, hresult, -⟩ := hfields
  refine ⟨result, hresult, ?_⟩
  rintro fault rfl
  obtain ⟨captured, hcaptured, hfound⟩ := fieldsAfter_of_encode hresult
  obtain rfl := Option.some.inj (hcaptures.symm.trans hcaptured)
  obtain ⟨before, entry, after, fields, hlayout, -, -, hfield | ⟨f, why, -, -, hexcess⟩⟩ :=
    Instruction.first_of_fieldsAfter_error hfound
  swap
  · exact ⟨why, hexcess⟩
  have hentry : entry ∈ rule.layout := by
    rw [hlayout]
    exact List.mem_append_right before List.mem_cons_self
  have hgives : (∃ field, Field.ofEntry set.arch operands entry = .ok field) ∨
      ∃ why, Field.ofEntry set.arch operands entry = .error (.excess why) := by
    cases entry with
    | bits digits =>
      exact Field.ofValue_of_lt (Int.natCast_nonneg _) (by exact_mod_cast bitsValue_lt digits) none
    | operand index name =>
      have hname := Rule.getElem?_of_mem_layout hsource hentry
      obtain ⟨value, hvalue, v, hv, hoffers, hlower⟩ := exists_of_forall₂_getElem? hvalues hname
      obtain ⟨operand, hoperand, w, rfl, hw⟩ := exists_of_forall₂_getElem? hops hvalue
      simp only [Field.ofEntry, Arch.scope, hv, Option.map_some, hoperand]
      exact Field.ofOperand_of_offers hoffers (fun hkind => (hlower hkind).2) hw
  rcases hgives with ⟨field, hok⟩ | ⟨why, herror⟩
  · rw [hok] at hfield
    cases hfield
  · rw [herror] at hfield
    exact ⟨why, (Except.error.inj hfield).symm⟩

end Written

/-- A line that some rule does not reject is settled by a rule: it makes an instruction of the line,
or meets a limit. -/
theorem pick_of_mem {arch : Arch} {text : String} {rules : List Rule} {rule : Rule}
    (hrule : rule ∈ rules) {result : Except Fault Encoding}
    (h : encode arch rule text = some result)
    (hresult : ∀ rejection, result ≠ .error (.rejected rejection)) (last : Option Rejection) :
    ∃ other ∈ rules,
      (∃ e, encode arch other text = some (.ok e) ∧ pick arch text last rules = .ok (.inr e)) ∨
      ∃ fault, encode arch other text = some (.error fault) ∧
        (∀ rejection, fault ≠ .rejected rejection) ∧ pick arch text last rules = .error fault := by
  induction rules generalizing last with
  | nil => cases hrule
  | cons first rest ih =>
    have hmem (hne : encode arch first text ≠ some result) : rule ∈ rest := by
      refine (List.mem_cons.1 hrule).resolve_left ?_
      rintro rfl
      exact hne h
    rcases hfirst : encode arch first text with _ | (fault | e)
    · have hpick : pick arch text last (first :: rest) = pick arch text last rest := by
        rw [pick, hfirst]
      obtain ⟨other, hother, hsettled⟩ := ih (hmem (by simp [hfirst])) last
      exact ⟨other, List.mem_cons_of_mem first hother, hpick ▸ hsettled⟩
    · by_cases hfault : ∃ rejection, fault = .rejected rejection
      · obtain ⟨rejection, rfl⟩ := hfault
        have hne : encode arch first text ≠ some result := by
          rw [hfirst]
          intro heq
          exact hresult rejection (Option.some.inj heq).symm
        have hpick : pick arch text last (first :: rest) =
            pick arch text (some rejection) rest := by
          rw [pick, hfirst]
        obtain ⟨other, hother, hsettled⟩ := ih (hmem hne) (some rejection)
        exact ⟨other, List.mem_cons_of_mem first hother, hpick ▸ hsettled⟩
      · have hnot : ∀ rejection, fault ≠ .rejected rejection := fun rejection heq =>
          hfault ⟨rejection, heq⟩
        refine ⟨first, List.mem_cons_self, .inr ⟨fault, hfirst, hnot, ?_⟩⟩
        rw [pick, hfirst]
        cases fault with
        | rejected rejection => exact absurd rfl (hnot rejection)
        | _ => rfl
    · exact ⟨first, List.mem_cons_self, .inl ⟨e, hfirst, by rw [pick, hfirst]⟩⟩

end Assembler

/-! ## Taking a line with nothing but an instruction -/

namespace Assembler

open Attempt

section Step

variable {a b : Assembler} {fault : Fault}

theorem runFrom_step_of_bare {line : String} (h : Statement.Bare line.toList)
    (hne : line.toList ≠ []) (library : Option Library) (a : Assembler) :
    (step library line).runFrom a =
      (assembleInstruction (Text.lower line)).runFrom (a.apply .count) := by
  rw [step, assembleLine, runFrom_bind_ok (runFrom_modify _ a), h.parse hne]
  rfl

theorem excess_of_emit (hs : a.Sound) {opcode nbits : Nat}
    (h : (emit opcode nbits).runFrom a = (.error fault, b)) : ∃ why, fault = .excess why := by
  have hpos := hs.width_pos
  rcases hbits : Capacity.fieldBits a.width with limit | bits
  · obtain ⟨why, rfl⟩ := Capacity.fieldBits_eq_error (by omega) hbits
    rw [runFrom_emit_of_error hpos hbits] at h
    cases h
    exact ⟨why, rfl⟩
  · rw [runFrom_emit_of_ok hpos hbits] at h
    rcases heach : (Attempt.each store _).runFrom _ with ⟨limit | u, c⟩
    · rw [runFrom_bind_error heach] at h
      cases h
      have hnoted : { a with
          records := a.records.push { line := a.line, offset := a.ip, nbits := nbits } }.Sound :=
        hs.congr rfl rfl rfl rfl
      obtain ⟨count, -, ⟨⟨⟩, -⟩ | ⟨⟨why, hwhy⟩, -⟩⟩ := storedUpTo_of_each hnoted heach
      exact ⟨why, Except.error.inj hwhy⟩
    · rw [runFrom_bind_ok heach] at h
      cases h

theorem excess_of_emitInstruction (hs : a.Sound) {instruction : Instruction}
    (h : (emitInstruction instruction).runFrom a = (.error fault, b)) :
    ∃ why, fault = .excess why := by
  obtain ⟨diagnostics, -, hrun⟩ := runFrom_emitInstruction hs.width_pos instruction
  rw [hrun] at h
  refine excess_of_emit ?_ h
  exact hs.congr rfl rfl rfl rfl

variable {set : InstructionSet} {text : String}

theorem runFrom_assembleInstruction_of_error (hactive : a.active = some set)
    (h : pick set.arch text none set.rules = .error fault) :
    (assembleInstruction text).runFrom a = (.error fault, a) := by
  rw [assembleInstruction, runFrom_bind_ok (runFrom_get a)]
  simp only [hactive, choose_eq_pick, h]
  rfl

/-- **An instruction that a rule is picked for is emitted**, and its record is given unless its
words cannot be held. -/
theorem emits_of_pick (hs : a.Sound) (hactive : a.active = some set) {e : Encoding}
    (h : pick set.arch text none set.rules = .ok (.inr e)) :
    Emitted a (a.place (.code e)) (guarded (assembleInstruction text) a) ∧
      (((assembleInstruction text).runFrom a).1 = .ok (some (a.place (.code e)).record) ∨
        ∃ why, ((assembleInstruction text).runFrom a).1 = .error (.excess why)) := by
  have hemitted : Emitted a (a.place (.code e)) (guarded (assembleInstruction text) a) := by
    rw [guarded_assembleInstruction, instructionEvents, hactive]
    simp only [h]
    exact emitted hs (.code e)
  have hrun : (assembleInstruction text).runFrom a =
      (emitInstruction (Instruction.ofFields a.ip a.line e.fields) >>= fun record =>
        pure (some record)).runFrom a := by
    rw [assembleInstruction, runFrom_bind_ok (runFrom_get a)]
    simp only [hactive, choose_eq_pick, h]
    rfl
  refine ⟨hemitted, ?_⟩
  rcases hemit : (emitInstruction (Instruction.ofFields a.ip a.line e.fields)).runFrom a with
    ⟨fault | record, b⟩
  · obtain ⟨why, rfl⟩ := excess_of_emitInstruction hs hemit
    exact .inr ⟨why, by rw [hrun, runFrom_bind_error hemit]⟩
  · have hok : (assembleInstruction text).runFrom a = (.ok (some record), b) := by
      rw [hrun, runFrom_bind_ok hemit]
      rfl
    have hlast := (gives_of_emitInstruction hs hemit).last
    rw [guarded_of_ok hok] at hemitted
    have hpushed : b.records.back? = some (a.place (.code e)).record := by
      rw [hemitted.frame, Array.back?_push]
    exact .inl (by rw [hok, Option.some.inj (hlast.symm.trans hpushed)])

end Step

/-! ## Writing the values of variables -/

/-- **Values of variables can be written.**  A rule matches its format with values of its variables
in the slots, if the tokens among them are words.  A line that is just this text is an instruction
and emits its record, if the tokens are in lower case as well and no slot is next to another.  Only
a limit to what can be held keeps it from that: one that a rule meets on the line, or one of the
words that it emits. -/
theorem emits_written {name : String} {data : Document} {set : InstructionSet}
    (hset : InstructionSet.ofDocument name data = .ok set) {rule : Rule} (hrule : rule ∈ set.rules)
    {values : List String}
    (hvalues : List.Forall₂ (set.arch.Offers Text.IsName) rule.names values) :
    (rule.captures (rule.written values)).isSome = true ∧
      (List.Forall₂ (set.arch.Offers Text.IsLower) rule.names values →
      Format.Apart (Format.pieces rule.source.format.toList) →
      Statement.Bare (rule.written values).toList → 'İ' ∉ (rule.written values).toList →
      ∀ library (a : Assembler), a.Sound → a.active = some set → ∃ other ∈ set.rules,
        (∃ e, encode set.arch other (Text.lower (rule.written values)) = some (.ok e) ∧
          Emitted (a.apply .count) ((a.apply .count).place (.code e))
            (guarded (step library (rule.written values)) a) ∧
          (((step library (rule.written values)).runFrom a).1 =
              .ok (some ((a.apply .count).place (.code e)).record) ∨
            ∃ why, ((step library (rule.written values)).runFrom a).1 = .error (.excess why))) ∨
        ∃ fault, encode set.arch other (Text.lower (rule.written values)) = some (.error fault) ∧
          fault.isLimit = true ∧
          ((step library (rule.written values)).runFrom a).1 = .error fault) := by
  refine ⟨captures_written hrule hvalues, ?_⟩
  intro hlower hapart hbare hdot library a hs hactive
  have hne := written_ne_nil hset hrule hvalues
  have hboth := List.Forall₂.mp (fun _ _ => Arch.Offers.and) hvalues hlower
  obtain ⟨result, hresult, hfaults⟩ := encode_lower_written hrule hboth hapart hdot
  have haccepts : ∀ rejection, result ≠ .error (.rejected rejection) := by
    intro rejection heq
    obtain ⟨why, hwhy⟩ := hfaults _ heq
    cases hwhy
  have hcount : (a.apply .count).active = some set := hactive
  have hguarded : guarded (step library (rule.written values)) a =
      guarded (assembleInstruction (Text.lower (rule.written values))) (a.apply .count) := by
    rw [guarded, runFrom_step_of_bare hbare hne, guarded]
  rw [hguarded, runFrom_step_of_bare hbare hne]
  obtain ⟨other, hother, ⟨e, he, hpick⟩ | ⟨fault, hfault, hnot, hpick⟩⟩ :=
    pick_of_mem hrule hresult haccepts none
  · exact ⟨other, hother, .inl ⟨e, he, emits_of_pick (hs.apply .count) hcount hpick⟩⟩
  · refine ⟨other, hother, .inr ⟨fault, hfault, ?_, ?_⟩⟩
    · exact isLimit_of_ofOperands (ofOperands_of_encode hother hfault) hnot
    · rw [runFrom_assembleInstruction_of_error hcount hpick]

end Assembler

end

namespace Assembler

theorem ok_of_toOption {ε α : Type} {result : Except ε α} {v : α}
    (h : result.toOption = some v) : result = .ok v := by
  cases result with
  | error error => cases h
  | ok value => rw [Option.some.inj h]

/-- An instruction set of words of eight bits with these variables and rules. -/
def sampleSet (vars : List (String × Document)) (rules : List (String × List Document)) :
    Document :=
  .object [("vars", .object vars), ("rules", .list (rules.map fun rule =>
    .object [("fmt", .text rule.1), ("bits", .list rule.2)]))]

/-- A variable of eight bits with these tokens. -/
def sampleTokens (names : List String) : Document :=
  .object [("bits", .int 8), ("toks", .list (names.map .text))]

/-- An instruction set with a rule for registers and numbers, behind one that takes only the numbers
of a single bit. -/
def sampleLoads : Document :=
  sampleSet [("reg", sampleTokens ["a", "b"]), ("imm", .object [("bits", .int 8)]),
      ("bit", .object [("bits", .int 1)])]
    [("ld ~reg , ~bit", [.int 0, .text "0000000", .int 1]), ("ld ~reg , ~imm", [.int 0, .int 1])]

open UsualMachine in
theorem emits_written_load :
    ∃ set, InstructionSet.ofDocument "" sampleLoads = .ok set ∧
      ∃ rule ∈ set.rules, rule.written ["b", "$1F"] = "ld b , $1F" ∧
        (rule.captures "ld b , $1F").isSome = true ∧
        ∃ other ∈ set.rules, ∃ e, encode set.arch other "ld b , $1f" = some (.ok e) ∧
          Emitted ((fresh (some set)).apply .count)
            (((fresh (some set)).apply .count).place (.code e))
            (guarded (step none "ld b , $1F") (fresh (some set))) ∧
          ((step none "ld b , $1F").runFrom (fresh (some set))).1 =
            .ok (some (((fresh (some set)).apply .count).place (.code e)).record) := by
  have hruns : (InstructionSet.ofDocument "" sampleLoads).toOption.any (fun set =>
      decide (∃ rule ∈ set.rules, rule.written ["b", "$1F"] = "ld b , $1F" ∧
        List.Forall₂ (set.arch.Offers Text.IsName) rule.names ["b", "$1F"] ∧
        List.Forall₂ (set.arch.Offers Text.IsLower) rule.names ["b", "$1F"] ∧
        Format.Apart (Format.pieces rule.source.format.toList) ∧
        ((step none "ld b , $1F").runFrom (fresh (some set))).1.isOk = true)) = true := by
    decide +kernel
  obtain ⟨set, hset, hset'⟩ := (Option.any_eq_true _ _).1 hruns
  obtain ⟨rule, hrule, hwritten, hnames, hlower, hapart, hok⟩ := of_decide_eq_true hset'
  obtain ⟨hcaptures, hemits⟩ := emits_written (ok_of_toOption hset) hrule hnames
  rw [hwritten] at hcaptures hemits
  have hbare : Statement.Bare "ld b , $1F".toList :=
    ⟨by decide +kernel, by decide, by decide, by decide +kernel⟩
  refine ⟨set, ok_of_toOption hset, rule, hrule, hwritten, hcaptures, ?_⟩
  have hcase : Text.lower "ld b , $1F" = "ld b , $1f" := by decide +kernel
  rw [hcase] at hemits
  obtain ⟨other, hother, ⟨e, he, hemitted, hrecord | ⟨why, hfault⟩⟩ | ⟨fault, -, -, hfault⟩⟩ :=
    hemits hlower hapart hbare (by decide) none (fresh (some set)) (follows_fresh _).sound rfl
  · exact ⟨other, hother, e, he, hemitted, hrecord⟩
  · rw [hfault] at hok
    cases hok
  · rw [hfault] at hok
    cases hok

open UsualMachine in
/-- Whether a document is accepted, and a rule of it has these values in the domains of its
variables, but emits no record for them. -/
def Unwritable (data : Document) (values : List String) : Prop :=
  ∃ set, InstructionSet.ofDocument "" data = .ok set ∧
    ∃ rule ∈ set.rules, List.Forall₂ (set.arch.Offers fun _ => True) rule.names values ∧
      (guarded (step none (rule.written values)) (fresh (some set))).records = #[]

/-- Instruction sets, with values of the variables of a rule that cannot be written. -/
def samples : List (Document × List String) :=
  [ -- A token that is no word, one that is empty, and one with a capital letter.
    (sampleSet [("r", sampleTokens ["(hl)"])] [("ld ~r", [.int 0])], ["(hl)"]),
    (sampleSet [("r", sampleTokens [""])] [("ld ~r", [.int 0])], [""]),
    (sampleSet [("r", sampleTokens ["A"])] [("ld ~r", [.int 0])], ["A"]),
    -- Slots side by side, of which the first one takes too much.
    (sampleSet [("r", sampleTokens ["a"]), ("s", sampleTokens ["bc"])]
      [("~r~s", [.int 0, .int 1])], ["a", "bc"]),
    -- A comment, a directive, a label and a blank in front.
    (sampleSet [] [("nop;x", [.text "00000000"])], []),
    (sampleSet [] [(".nop", [.text "00000000"])], []),
    (sampleSet [] [("a: nop", [.text "00000000"])], []),
    (sampleSet [] [(" nop", [.text "00000000"])], []),
    -- A character that is two in lower case.
    (sampleSet [] [("İ", [.text "00000000"])], []),
    -- A field of another rule that cannot be held.
    (sampleSet [("n", .object [("bits", .int (2 ^ 64))])]
      [("ld ~n", [.int 0]), ("ld 1", [.text "00000000"])], [])]

open UsualMachine in
theorem unwritable_samples : samples.Forall fun sample => Unwritable sample.1 sample.2 := by
  have hsamples : ∀ sample ∈ samples,
      (InstructionSet.ofDocument "" sample.1).toOption.any (fun set => decide
        (∃ rule ∈ set.rules, List.Forall₂ (set.arch.Offers fun _ => True) rule.names sample.2 ∧
          (guarded (step none (rule.written sample.2)) (fresh (some set))).records = #[])) := by
    decide +kernel
  refine List.forall_iff_forall_mem.2 fun sample hsample => ?_
  obtain ⟨set, hset, hrefused⟩ := (Option.any_eq_true _ _).1 (hsamples sample hsample)
  exact ⟨set, ok_of_toOption hset, of_decide_eq_true hrefused⟩

end Assembler

end Retarget
