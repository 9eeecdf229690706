import Mathlib
import Offside.Diagnostic.Catalogue
import Offside.Proofs.Dumps
import Offside.Proofs.Replacement

/-!
Arguments in message templates. A template is filled one argument after the other, and what has been
put in is searched for the placeholders of the arguments that follow. So an argument comes out as it
went in unless it makes such a placeholder, alone or with what stands in front of it.
-/

namespace Offside.Diagnostic.Template

open Text

section Placeholder

variable {i j : Nat} {text rest : List Char}

theorem placeholder_ne_nil (i : Nat) : placeholder i ≠ [] := List.cons_ne_nil _ _

theorem placeholder_eq (i : Nat) : placeholder i = '\x7b' :: (placeholder i).tail := rfl

theorem brace_not_mem_tail (i : Nat) : '\x7b' ∉ (placeholder i).tail := by
  simp [placeholder, not_mem_toDigits]

theorem placeholder_unique (one : placeholder i <+: text) (other : placeholder j <+: text) :
    i = j := by
  obtain ⟨behind, rfl⟩ := one
  obtain ⟨further, same⟩ := other
  simp only [placeholder, List.cons_append, List.append_assoc, List.cons.injEq, true_and,
    List.nil_append] at same
  have digits := cut_unique (not_mem_toDigits rfl _) (not_mem_toDigits rfl _) same
  exact (Json.toDigits_injective digits.1).symm

/-- A placeholder in front of which another one stands is that one, or it stands behind it. -/
theorem infix_placeholder_append (within : placeholder i <:+: placeholder j ++ rest) :
    i = j ∨ placeholder i <:+: rest := by
  have clear := brace_not_mem_tail j
  have tail : ∀ front, '\x7b' ∉ front → placeholder i <:+: front ++ rest →
      placeholder i <:+: rest := by
    intro front
    induction front with
    | nil => exact fun _ within => within
    | cons c front ih =>
      intro clear within
      rw [List.mem_cons, not_or] at clear
      rw [List.cons_append, List.infix_cons_iff] at within
      rcases within with here | further
      · rw [placeholder, List.cons_append, List.cons_prefix_cons] at here
        exact absurd here.1 clear.1
      · exact ih clear.2 further
  rw [placeholder_eq j, List.cons_append, List.infix_cons_iff] at within
  rcases within with here | further
  · exact .inl (placeholder_unique here (List.prefix_append (placeholder j) rest))
  · exact .inr (tail _ clear further)

end Placeholder

/-- The number of the placeholder that a text begins with, if it is below `n`. -/
def number? (n : Nat) (text : List Char) : Option Nat :=
  (List.range n).find? fun i => (placeholder i).isPrefixOf text

/-- The template with all arguments put in at once, in one pass from left to right: each placeholder
of an argument that there is is replaced, and all else is copied. Nothing that is put in is looked at
again. -/
def substitute (args : List (List Char)) (text : List Char) : List Char :=
  go 0 text
where
  /-- The first `matched` characters belong to the placeholder found last. -/
  go : Nat → List Char → List Char
    | _, [] => []
    | matched + 1, _ :: rest => go matched rest
    | 0, c :: rest =>
      match number? args.length (c :: rest) with
      | some i => args.getD i [] ++ go (placeholder i).tail.length rest
      | none => c :: go 0 rest

section Substitute

variable {args : List (List Char)} {i : Nat} {c : Char} {text rest : List Char}

theorem number?_placeholder {n : Nat} (inside : i < n) (rest : List Char) :
    number? n (placeholder i ++ rest) = some i := by
  cases found : number? n (placeholder i ++ rest) with
  | none =>
    rw [number?, List.find?_eq_none] at found
    have := found i (List.mem_range.mpr inside)
    simp at this
  | some j =>
    have front := List.find?_some found
    rw [List.isPrefixOf_iff_prefix] at front
    rw [placeholder_unique front (List.prefix_append _ _)]

theorem number?_eq_none {n : Nat} (other : ∀ i < n, ¬placeholder i <+: text) :
    number? n text = none := by
  rw [number?, List.find?_eq_none]
  intro i member
  rw [List.isPrefixOf_iff_prefix]
  exact other i (List.mem_range.mp member)

theorem substitute_go_append (args : List (List Char)) (front rest : List Char) :
    substitute.go args front.length (front ++ rest) = substitute args rest := by
  induction front with
  | nil => rfl
  | cons c front ih => exact ih

theorem substitute_placeholder (inside : i < args.length) (rest : List Char) :
    substitute args (placeholder i ++ rest) = args[i] ++ substitute args rest := by
  have found := number?_placeholder inside rest
  rw [placeholder_eq, List.cons_append] at found ⊢
  rw [substitute, substitute.go, found]
  simp only [substitute_go_append, List.getD_eq_getElem _ _ inside]

theorem substitute_cons (other : ∀ i < args.length, ¬placeholder i <+: c :: rest) :
    substitute args (c :: rest) = c :: substitute args rest := by
  rw [substitute, substitute.go, number?_eq_none other]
  rfl

theorem substitute_append_of_not_mem {front : List Char} (clear : '\x7b' ∉ front)
    (rest : List Char) : substitute args (front ++ rest) = front ++ substitute args rest := by
  induction front with
  | nil => rfl
  | cons d front ih =>
    rw [List.mem_cons, not_or] at clear
    have other : ∀ i < args.length, ¬placeholder i <+: d :: (front ++ rest) := by
      intro i _ here
      rw [placeholder, List.cons_append, List.cons_prefix_cons] at here
      exact clear.1 here.1
    rw [List.cons_append, substitute_cons other, ih clear.2, List.cons_append]

theorem substitute_missing (missing : args.length ≤ i) (rest : List Char) :
    substitute args (placeholder i ++ rest) = placeholder i ++ substitute args rest := by
  have other : ∀ j < args.length, ¬placeholder j <+: placeholder i ++ rest := by
    intro j inside here
    have := placeholder_unique here (List.prefix_append _ _)
    omega
  rw [placeholder_eq i, List.cons_append] at other ⊢
  rw [substitute_cons other, substitute_append_of_not_mem (brace_not_mem_tail i), List.cons_append]

/-- A template is made of the placeholders of the first arguments and of characters at which none of
them begins. -/
theorem template_induction (n : Nat) {motive : List Char → Prop} (nil : motive [])
    (hole : ∀ i rest, i < n → motive rest → motive (placeholder i ++ rest))
    (copy : ∀ c rest, (∀ i < n, ¬placeholder i <+: c :: rest) → motive rest → motive (c :: rest))
    (template : List Char) : motive template := by
  induction template using patterns_induction (P := fun p => ∃ i < n, p = placeholder i) with
  | nonempty p pattern =>
    obtain ⟨i, _, rfl⟩ := pattern
    exact placeholder_ne_nil i
  | nil => exact nil
  | occurrence p rest pattern ih =>
    obtain ⟨i, inside, rfl⟩ := pattern
    exact hole i rest inside ih
  | copy c rest other ih => exact copy c rest (fun i inside => other _ ⟨i, inside, rfl⟩) ih

end Substitute

def Apart (a b : List Char) : Prop :=
  ¬a <+: b ∧ ¬b <+: a

/-- Putting in an argument for its placeholder `hole` makes no placeholder `next`: none begins in the
argument, and what begins as one in front of the argument does not go on as one in it. -/
structure Settles (next hole arg template : List Char) : Prop where
  inside : hole <:+: template → ∀ u, u <:+ arg → u ≠ [] → Apart u next
  front : ∀ u, u <+: next → u ≠ [] → u ≠ next → u ++ hole <:+: template → Apart (u ++ arg) next

/-- The placeholder of the argument behind some others is nowhere made by putting in those. -/
def Settled (args : List (List Char)) (template : List Char) : Prop :=
  ∀ i (_ : i < args.length), Settles (placeholder args.length) (placeholder i) args[i] template

instance (a b : List Char) : Decidable (Apart a b) :=
  inferInstanceAs (Decidable (_ ∧ _))

instance (next hole arg template : List Char) : Decidable (Settles next hole arg template) :=
  decidable_of_iff
    ((hole <:+: template → ∀ u ∈ arg.tails, u ≠ [] → Apart u next) ∧
      ∀ u ∈ next.inits, u ≠ [] → u ≠ next → u ++ hole <:+: template → Apart (u ++ arg) next)
    ⟨fun ⟨inside, front⟩ =>
      ⟨fun within u suffix => inside within u ((List.mem_tails u arg).mpr suffix),
        fun u begins => front u ((List.mem_inits u next).mpr begins)⟩,
      fun ⟨inside, front⟩ =>
        ⟨fun within u member => inside within u ((List.mem_tails u arg).mp member),
          fun u member => front u ((List.mem_inits u next).mp member)⟩⟩

instance (args : List (List Char)) (template : List Char) : Decidable (Settled args template) :=
  inferInstanceAs (Decidable (∀ i (_ : i < args.length), _))

section Settled

variable {args : List (List Char)} {template rest : List Char}

theorem apart_cons_iff {a b : List Char} (c : Char) : Apart (c :: a) (c :: b) ↔ Apart a b := by
  simp [Apart, List.cons_prefix_cons]

theorem Settled.part (settled : Settled args template) (part : rest <:+: template) :
    Settled args rest := fun i known =>
  { inside := fun within => (settled i known).inside (within.trans part)
    front := fun u begins some other within =>
      (settled i known).front u begins some other (within.trans part) }

/-- What stands in front of a text with arguments put in stood there before, or an argument is in
it. -/
theorem prefix_substitute {q : List Char} (front : q <+: substitute args template) :
    q <+: template ∨ ∃ u i, ∃ _ : i < args.length, u ++ placeholder i <+: template ∧ u <+: q ∧
      u ≠ q ∧ ¬Apart (u ++ args[i]) q := by
  induction template using template_induction args.length generalizing q with
  | nil => exact .inl front
  | hole i rest inside ih =>
    cases q with
    | nil => exact .inl List.nil_prefix
    | cons d q =>
      rw [substitute_placeholder inside] at front
      have related := List.prefix_or_prefix_of_prefix front (List.prefix_append _ _)
      refine .inr ⟨[], i, inside, List.prefix_append _ _, List.nil_prefix, by simp, ?_⟩
      rintro ⟨shorter, longer⟩
      exact related.elim longer shorter
  | copy c rest other ih =>
    cases q with
    | nil => exact .inl List.nil_prefix
    | cons d q =>
      rw [substitute_cons other, List.cons_prefix_cons] at front
      obtain ⟨rfl, behind⟩ := front
      rcases ih behind with before | ⟨u, i, inside, hole, begins, more, related⟩
      · exact .inl ((List.prefix_cons_inj _).mpr before)
      · refine .inr ⟨d :: u, i, inside, (List.prefix_cons_inj _).mpr hole,
          (List.prefix_cons_inj _).mpr begins, by simpa using more, ?_⟩
        rwa [List.cons_append, apart_cons_iff]

/-- One argument more is put in as if it had been there from the beginning. -/
theorem replaceAll_substitute (settled : Settled args template) (arg : List Char) :
    replaceAll (placeholder args.length) arg (substitute args template) =
      substitute (args ++ [arg]) template := by
  have more : (args ++ [arg]).length = args.length + 1 := List.length_append
  induction template using template_induction (args.length + 1) with
  | nil => rfl
  | hole i rest inside ih =>
    have further := ih (settled.part (List.suffix_append _ _).isInfix)
    have known : i < (args ++ [arg]).length := by omega
    rw [substitute_placeholder known]
    -- an earlier argument stands here and holds nothing to replace, or it is the new one's turn
    by_cases earlier : i < args.length
    · have clear : ∀ u, u <:+ args[i] → u ≠ [] →
          ¬placeholder args.length <+: u ++ substitute args rest := by
        intro u suffix some begins
        obtain ⟨shorter, longer⟩ :=
          (settled i earlier).inside (List.prefix_append _ _).isInfix u suffix some
        exact (List.prefix_or_prefix_of_prefix begins (List.prefix_append _ _)).elim longer shorter
      rw [substitute_placeholder earlier, replaceAll_append arg clear, further,
        List.getElem_append_left earlier]
    · obtain rfl : i = args.length := by omega
      rw [substitute_missing (Nat.le_refl _), replaceAll_prefix arg (placeholder_ne_nil _), further]
      simp
  | copy c rest other ih =>
    have further := ih (settled.part (List.suffix_cons _ _).isInfix)
    have here : substitute args (c :: rest) = c :: substitute args rest :=
      substitute_cons fun i inside => other i (by omega)
    have clear : ¬placeholder args.length <+: c :: substitute args rest := by
      intro begins
      rw [placeholder_eq, List.cons_prefix_cons] at begins
      obtain ⟨rfl, behind⟩ := begins
      rcases prefix_substitute behind with before | ⟨u, i, inside, hole, begins, more, related⟩
      · refine other args.length (Nat.lt_succ_self _) ?_
        rw [placeholder_eq]
        exact (List.prefix_cons_inj _).mpr before
      · -- the placeholder begins in the template and goes on in an argument
        have begins : '\x7b' :: u <+: placeholder args.length :=
          (List.prefix_cons_inj _).mpr begins
        have hole : ('\x7b' :: u) ++ placeholder i <+: '\x7b' :: rest :=
          (List.prefix_cons_inj _).mpr hole
        have more : '\x7b' :: u ≠ placeholder args.length := by
          rw [placeholder_eq]
          simpa using more
        have apart := (settled i inside).front _ begins (List.cons_ne_nil _ _) more hole.isInfix
        rw [placeholder_eq args.length, List.cons_append, apart_cons_iff] at apart
        exact related apart
    rw [here, replaceAll_cons arg clear, further, substitute_cons fun i inside => other i (by omega)]

theorem substitute_none (template : List Char) : substitute [] template = template := by
  induction template using template_induction 0 with
  | nil => rfl
  | hole i rest inside => contradiction
  | copy c rest other ih =>
    have plain : substitute [] (c :: rest) = c :: substitute [] rest := substitute_cons other
    rw [plain, ih]

theorem fillFrom_substitute (done : List (List Char))
    (settled : ∀ k, done.length ≤ k → k < (done ++ args).length →
      Settled ((done ++ args).take k) template) :
    fillFrom done.length args (substitute done template) = substitute (done ++ args) template := by
  induction args generalizing done with
  | nil => rw [List.append_nil]; rfl
  | cons arg args ih =>
    have here : Settled done template := by
      have := settled done.length (Nat.le_refl _) (by simp)
      rwa [List.take_left] at this
    have split : done ++ arg :: args = (done ++ [arg]) ++ args := by simp
    have next : done.length + 1 = (done ++ [arg]).length := by simp
    rw [split] at settled ⊢
    rw [fillFrom, replaceAll_substitute here, next]
    exact ih (done ++ [arg]) fun k le lt => settled k (by omega) lt

theorem fillFrom_eq_substitute (settled : ∀ k < args.length, Settled (args.take k) template) :
    fillFrom 0 args template = substitute args template := by
  have filled : fillFrom 0 args (substitute [] template) = substitute args template :=
    fillFrom_substitute [] fun k _ lt => settled k lt
  rwa [substitute_none] at filled

end Settled

section Verbatim

variable {template : List Char} {i k m : Nat}

/-- Without the placeholders of the arguments in front of another one, nothing is made by putting
them in. -/
theorem settled_of_not_infix {args : List (List Char)}
    (unused : ∀ i < args.length, ¬placeholder i <:+: template) : Settled args template :=
  fun i known =>
    { inside := fun within => absurd within (unused i known)
      front := fun u _ _ _ within =>
        absurd ((List.suffix_append u _).isInfix.trans within) (unused i known) }

theorem infix_substitute {args : List (List Char)} (inside : i < args.length)
    (within : placeholder i <:+: template) : args[i] <:+: substitute args template := by
  induction template using template_induction args.length with
  | nil => simp [placeholder] at within
  | hole j rest known ih =>
    rw [substitute_placeholder known]
    rcases infix_placeholder_append within with rfl | further
    · exact (List.prefix_append _ _).isInfix
    · exact (ih further).trans (List.suffix_append _ _).isInfix
  | copy c rest other ih =>
    rw [substitute_cons other]
    rcases List.infix_cons_iff.mp within with here | further
    · exact absurd here (other i inside)
    · exact (ih further).trans (List.suffix_cons _ _).isInfix

theorem apart_of_head {c : Char} (other : c ≠ '\x7b') (text : List Char) (k : Nat) :
    Apart (c :: text) (placeholder k) := by
  rw [placeholder_eq k]
  simp [Apart, List.cons_prefix_cons, other, other.symm]

theorem apart_of_suffix (other : m ≠ k) {u : List Char} (suffix : u <:+ placeholder m)
    (some : u ≠ []) : Apart u (placeholder k) := by
  rw [placeholder_eq m, List.suffix_cons_iff] at suffix
  rcases suffix with rfl | inner
  · rw [← placeholder_eq m]
    constructor
    · intro front
      exact other (placeholder_unique front (List.prefix_refl _))
    · intro front
      exact other (placeholder_unique front (List.prefix_refl _)).symm
  · cases u with
    | nil => contradiction
    | cons c u =>
      refine apart_of_head ?_ u k
      rintro rfl
      exact brace_not_mem_tail m (inner.subset List.mem_cons_self)

/-- What begins as a placeholder does not go on as one with a character that stands in none. -/
theorem apart_of_not_mem {c : Char} (clear : c ∉ (placeholder k).tail) {u : List Char}
    (begins : u <+: placeholder k) (some : u ≠ []) (more : u ≠ placeholder k) (text : List Char) :
    Apart (u ++ c :: text) (placeholder k) := by
  obtain ⟨v, split⟩ := begins
  cases v with
  | nil => exact absurd ((List.append_nil u).symm.trans split) more
  | cons d v =>
    have member : d ∈ (placeholder k).tail := by
      cases u with
      | nil => contradiction
      | cons e u => simp [← split]
    have differ : c ≠ d := by
      rintro rfl
      exact clear member
    rw [← split]
    simp [Apart, List.prefix_append_right_inj, List.cons_prefix_cons, differ, differ.symm]

/-- Arguments that are nothing to each other, but for one that is the placeholder of the argument
behind them. -/
def probe (m i : Nat) : List (List Char) :=
  (List.range m).map fun j => if j = i then placeholder m else ['x']

@[simp] theorem length_probe (m i : Nat) : (probe m i).length = m := by
  simp [probe]

theorem x_not_mem_placeholder (k : Nat) : 'x' ∉ placeholder k := by
  simp [placeholder, not_mem_toDigits]

theorem settled_probe (inside : k < m) (i : Nat) (template : List Char) :
    Settled ((probe m i).take k) template := by
  have size : ((probe m i).take k).length = k := by simp [Nat.le_of_lt inside]
  have arg (j : Nat) (within : j < ((probe m i).take k).length) :
      ((probe m i).take k)[j] = if j = i then placeholder m else ['x'] := by
    simp [probe]
  intro j within
  rw [arg, size]
  constructor
  · intro _ u suffix some
    split at suffix
    · exact apart_of_suffix (Nat.ne_of_gt inside) suffix some
    · rcases List.suffix_cons_iff.mp suffix with rfl | empty
      · exact apart_of_head (by decide) [] k
      · exact absurd (List.suffix_nil.mp empty) some
  · intro u begins some more _
    split
    · exact apart_of_not_mem (brace_not_mem_tail k) begins some more _
    · exact apart_of_not_mem (fun member => x_not_mem_placeholder k (List.mem_of_mem_tail member))
        begins some more _

theorem fillFrom_concat (first : Nat) (args : List (List Char)) (arg text : List Char) :
    fillFrom first (args ++ [arg]) text =
      replaceAll (placeholder (first + args.length)) arg (fillFrom first args text) := by
  induction args generalizing first text with
  | nil => rfl
  | cons a args ih =>
    have next : first + (a :: args).length = first + 1 + args.length := by
      rw [List.length_cons]
      omega
    rw [next]
    exact ih (first + 1) _

/-- The templates that are filled as if all arguments were put in at once, whatever the arguments
are: those with no placeholder but that of the last argument. -/
theorem forall_fillFrom_eq_iff (template : List Char) (n : Nat) :
    (∀ args : List (List Char), args.length = n →
      fillFrom 0 args template = substitute args template) ↔
        ∀ i, i + 1 < n → ¬placeholder i <:+: template := by
  constructor
  · intro same i inside within
    obtain ⟨m, rfl⟩ : ∃ m, n = m + 1 := ⟨n - 1, by omega⟩
    have filled := same (probe m i ++ [['x']]) (by simp)
    have before : fillFrom 0 (probe m i) template = substitute (probe m i) template :=
      fillFrom_eq_substitute fun k lt => settled_probe (length_probe m i ▸ lt) i template
    rw [fillFrom_concat, before, length_probe, Nat.zero_add] at filled
    have known : i < (probe m i ++ [['x']]).length := by simp; omega
    have found := infix_substitute known within
    have arg : (probe m i ++ [['x']])[i] = placeholder m := by
      rw [List.getElem_append_left (by simp; omega)]
      simp [probe]
    rw [arg, ← filled] at found
    exact not_infix_replaceAll (placeholder_ne_nil m) (x_not_mem_placeholder m) _ found
  · intro unused args length
    refine fillFrom_eq_substitute fun k lt => settled_of_not_infix fun i inside => unused i ?_
    rw [List.length_take] at inside
    omega

end Verbatim

def fillAtOnce (template : String) (args : List String) : String :=
  String.ofList (substitute (args.map String.toList) template.toList)

theorem fill_eq_fillAtOnce {template : String} {args : List String}
    (settled : ∀ k < args.length, Settled ((args.map String.toList).take k) template.toList) :
    fill template args = fillAtOnce template args := by
  rw [fill, fillAtOnce, fillFrom_eq_substitute]
  simpa using settled

/-- The `n` arguments of a template come out as they went in as long as none of them makes the
placeholder of a later one. Templates of which that holds whatever the arguments are, are those with
no placeholder but that of the last argument. -/
theorem fill_verbatim (template : String) (n : Nat) :
    (∀ args : List String, args.length = n →
      (∀ k < n, Settled ((args.map String.toList).take k) template.toList) →
        fill template args = fillAtOnce template args) ∧
    ((∀ args : List String, args.length = n → fill template args = fillAtOnce template args) ↔
      ∀ i, i + 1 < n → ¬placeholder i <:+: template.toList) := by
  constructor
  · rintro args rfl settled
    exact fill_eq_fillAtOnce settled
  rw [← forall_fillFrom_eq_iff]
  constructor
  · intro same args length
    have filled := same (args.map String.ofList) (by simpa using length)
    rw [fill, fillAtOnce, List.map_map] at filled
    simpa [Function.comp_def] using String.ofList_injective filled
  · intro same args length
    rw [fill, fillAtOnce, same _ (by simpa using length)]

theorem fill_verbatim_braces :
    let template := Message.cannotReadFile.template
    let args := ["a\x7b0\x7d\x7bb\x7d", "no \x7b1\x7d"]
    (∀ k < args.length, Settled ((args.map String.toList).take k) template.toList) ∧
      fill template args = "Cannot read file 'a\x7b0\x7d\x7bb\x7d': no \x7b1\x7d." := by
  intro template args
  have settled : ∀ k < args.length, Settled ((args.map String.toList).take k) template.toList := by
    decide +kernel
  refine ⟨settled, ((fill_verbatim template args.length).1 args rfl settled).trans ?_⟩
  decide +kernel

/-- A name that reads like the placeholder of the reason comes out as the reason. -/
theorem fill_searches_arguments :
    let template := Message.cannotReadFile.template
    fill template ["\x7b1\x7d", "gone"] = "Cannot read file 'gone': gone." ∧
      fillAtOnce template ["\x7b1\x7d", "gone"] = "Cannot read file '\x7b1\x7d': gone." := by
  decide +kernel

end Offside.Diagnostic.Template
