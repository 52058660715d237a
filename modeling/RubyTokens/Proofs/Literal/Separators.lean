import Mathlib.Data.List.Basic
import RubyTokens.Literal.Integer

/-! Underscores between digits. A literal may have a single underscore between any two of its digits
and nowhere else. This is said twice: by the way such digits are spelled, and by what stands around
each underscore of a text. The check of integer literals asks for the same, but of characters of any
kind, so that it takes an underscore beside a sign or a space. -/

namespace RubyTokens

open IntegerLiteral (dropUnderscores isWellSeparated hasDoubleUnderscore)

/-- Characters of a class, one at least, with single underscores between them. -/
inductive Separated (p : Char → Prop) : List Char → Prop
  | single {c : Char} (h : p c) : Separated p [c]
  | next {c : Char} {cs : List Char} (h : p c) (rest : Separated p cs) : Separated p (c :: cs)
  | underscore {c : Char} {cs : List Char} (h : p c) (rest : Separated p cs) :
      Separated p (c :: '_' :: cs)

/-- Each underscore has a character of the class right before it and right behind it. -/
def Surrounded (p : Char → Prop) (cs : List Char) : Prop :=
  ∀ as bs, cs = as ++ '_' :: bs → (∃ c ∈ as.getLast?, p c) ∧ ∃ c ∈ bs.head?, p c

/-- The widest class of characters that an underscore may separate. -/
def NotUnderscore (c : Char) : Prop := c ≠ '_'

instance : DecidablePred NotUnderscore := fun c => inferInstanceAs (Decidable (c ≠ '_'))

theorem not_notUnderscore : ¬ NotUnderscore '_' := fun h => h rfl

variable {p : Char → Prop} {c : Char} {as bs cs : List Char}

@[simp] theorem dropUnderscores_nil : dropUnderscores [] = [] := rfl

@[simp] theorem dropUnderscores_underscore : dropUnderscores ('_' :: cs) = dropUnderscores cs := rfl

theorem dropUnderscores_cons (h : c ≠ '_') :
    dropUnderscores (c :: cs) = c :: dropUnderscores cs := by
  simp [dropUnderscores, h]

@[simp] theorem dropUnderscores_append :
    dropUnderscores (as ++ bs) = dropUnderscores as ++ dropUnderscores bs :=
  List.filter_append ..

theorem mem_dropUnderscores : c ∈ dropUnderscores cs ↔ c ∈ cs ∧ c ≠ '_' := by
  simp [dropUnderscores]

theorem dropUnderscores_of_notMem (h : '_' ∉ cs) : dropUnderscores cs = cs :=
  List.filter_eq_self.2 fun c hc => by
    have : c ≠ '_' := fun heq => h (heq ▸ hc)
    simpa using this

/-- Induction over a text in which an underscore comes with the character before it. -/
theorem underscoreInduction {P : List Char → Prop} (nil : P []) (single : ∀ c, P [c])
    (underscore : ∀ c cs, P cs → P (c :: '_' :: cs))
    (next : ∀ c d cs, d ≠ '_' → P (d :: cs) → P (c :: d :: cs)) : ∀ cs, P cs
  | [] => nil
  | [c] => single c
  | c :: d :: cs => by
    by_cases hd : d = '_'
    · subst hd
      exact underscore c cs (underscoreInduction nil single underscore next cs)
    · exact next c d cs hd (underscoreInduction nil single underscore next (d :: cs))

/-! ### How separated digits are spelled -/

theorem not_separated_nil : ¬ Separated p [] := nofun

theorem separated_singleton : Separated p [c] ↔ p c :=
  ⟨fun h => by
    cases h with
    | single h => exact h
    | next _ rest => exact absurd rest not_separated_nil, .single⟩

theorem Separated.exists_head (h : Separated p cs) : ∃ c ∈ cs.head?, p c := by
  cases h with
  | single h => exact ⟨_, rfl, h⟩
  | next h _ => exact ⟨_, rfl, h⟩
  | underscore h _ => exact ⟨_, rfl, h⟩

theorem separated_cons {d : Char} : Separated p (c :: d :: cs) ↔
    p c ∧ (Separated p (d :: cs) ∨ d = '_' ∧ Separated p cs) := by
  constructor
  · intro h
    cases h with
    | next h rest => exact ⟨h, .inl rest⟩
    | underscore h rest => exact ⟨h, .inr ⟨rfl, rest⟩⟩
  · rintro ⟨h, rest | ⟨rfl, rest⟩⟩
    · exact .next h rest
    · exact .underscore h rest

instance decidableSeparated [DecidablePred p] : DecidablePred (Separated p)
  | [] => isFalse not_separated_nil
  | [_] => decidable_of_iff _ separated_singleton.symm
  | _ :: d :: cs =>
    have := decidableSeparated (d :: cs)
    have := decidableSeparated cs
    decidable_of_iff _ separated_cons.symm

theorem separated_cons_underscore (hp : ¬ p '_') :
    Separated p (c :: '_' :: cs) ↔ p c ∧ Separated p cs := by
  have hrest : ¬ Separated p ('_' :: cs) := fun h => by
    obtain ⟨x, hx, hpx⟩ := h.exists_head
    exact hp (Option.some.inj hx ▸ hpx)
  simp [separated_cons, hrest]

theorem separated_cons_cons {d : Char} (hd : d ≠ '_') :
    Separated p (c :: d :: cs) ↔ p c ∧ Separated p (d :: cs) := by
  simp [separated_cons, hd]

/-- The class may be told apart from the places of the underscores. -/
theorem separated_iff_forall (hp : ¬ p '_') :
    Separated p cs ↔ Separated NotUnderscore cs ∧ ∀ c ∈ dropUnderscores cs, p c := by
  have hall : ∀ {c cs}, p c ∧ (∀ x ∈ dropUnderscores cs, p x) ↔
      NotUnderscore c ∧ ∀ x ∈ dropUnderscores (c :: cs), p x := by
    intro c cs
    by_cases hc : c = '_'
    · subst hc
      simp [hp, not_notUnderscore]
    · simp [dropUnderscores_cons hc, NotUnderscore, hc]
  induction cs using underscoreInduction with
  | nil => exact ⟨fun h => absurd h not_separated_nil, fun h => absurd h.1 not_separated_nil⟩
  | single c =>
    have := @hall c []
    simp only [dropUnderscores_nil, List.not_mem_nil, false_imp_iff, implies_true, and_true] at this
    rw [separated_singleton, separated_singleton, this]
  | underscore c cs ih =>
    calc Separated p (c :: '_' :: cs)
      _ ↔ p c ∧ Separated NotUnderscore cs ∧ ∀ x ∈ dropUnderscores cs, p x :=
        (separated_cons_underscore hp).trans (and_congr_right' ih)
      _ ↔ (NotUnderscore c ∧ Separated NotUnderscore cs) ∧
          ∀ x ∈ dropUnderscores (c :: cs), p x := by
        rw [and_left_comm, hall, and_left_comm, and_assoc]
      _ ↔ _ := and_congr_left' (separated_cons_underscore not_notUnderscore).symm
  | next c d cs hd ih =>
    calc Separated p (c :: d :: cs)
      _ ↔ p c ∧ Separated NotUnderscore (d :: cs) ∧ ∀ x ∈ dropUnderscores (d :: cs), p x :=
        (separated_cons_cons hd).trans (and_congr_right' ih)
      _ ↔ (NotUnderscore c ∧ Separated NotUnderscore (d :: cs)) ∧
          ∀ x ∈ dropUnderscores (c :: d :: cs), p x := by
        rw [and_left_comm, hall, and_left_comm, and_assoc]
      _ ↔ _ := and_congr_left' (separated_cons_cons hd).symm

theorem Separated.forall_mem (hp : ¬ p '_') (h : Separated p cs) : ∀ c ∈ dropUnderscores cs, p c :=
  ((separated_iff_forall hp).1 h).2

/-- Without underscores any characters of the class will do. -/
theorem separated_of_forall (hne : cs ≠ []) (h : ∀ c ∈ cs, p c) : Separated p cs := by
  induction cs with
  | nil => exact absurd rfl hne
  | cons c cs ih =>
    have hc := h c List.mem_cons_self
    cases cs with
    | nil => exact .single hc
    | cons d cs =>
      have hrest := ih (List.cons_ne_nil d cs) fun x hx => h x (List.mem_cons_of_mem c hx)
      exact .next hc hrest

theorem Separated.dropUnderscores_ne_nil (hp : ¬ p '_') (h : Separated p cs) :
    dropUnderscores cs ≠ [] := by
  obtain ⟨c, hc, hpc⟩ := h.exists_head
  have hne : c ≠ '_' := fun heq => hp (heq ▸ hpc)
  exact List.ne_nil_of_mem (mem_dropUnderscores.2 ⟨List.mem_of_mem_head? hc, hne⟩)

/-! ### The check of integer literals -/

theorem isWellSeparated_iff : isWellSeparated cs = true ↔ Separated NotUnderscore cs := by
  induction cs using underscoreInduction with
  | nil => simp [isWellSeparated, not_separated_nil]
  | single c =>
    rw [separated_singleton]
    simp [isWellSeparated, hasDoubleUnderscore, NotUnderscore]
  | underscore c cs ih =>
    rw [separated_cons_underscore not_notUnderscore, ← ih]
    cases cs with
    | nil => simp [isWellSeparated]
    | cons d cs =>
      by_cases hd : d = '_' <;> by_cases hc : c = '_' <;>
        simp [isWellSeparated, hasDoubleUnderscore, NotUnderscore, hd, hc]
  | next c d cs hd ih =>
    rw [separated_cons_cons hd, ← ih]
    by_cases hc : c = '_' <;> simp [isWellSeparated, hasDoubleUnderscore, NotUnderscore, hd, hc]

/-- A change of characters that leaves the underscores where they are. -/
theorem separated_map {f : Char → Char} (hf : ∀ c, f c = '_' ↔ c = '_') :
    Separated NotUnderscore (cs.map f) ↔ Separated NotUnderscore cs := by
  induction cs using underscoreInduction with
  | nil => rfl
  | single c =>
    rw [List.map_singleton, separated_singleton, separated_singleton]
    exact not_congr (hf c)
  | underscore c cs ih =>
    rw [List.map_cons, List.map_cons, (hf '_').2 rfl, separated_cons_underscore not_notUnderscore,
      separated_cons_underscore not_notUnderscore]
    exact and_congr (not_congr (hf c)) ih
  | next c d cs hd ih =>
    rw [List.map_cons, List.map_cons, separated_cons_cons (mt (hf d).1 hd), separated_cons_cons hd]
    exact and_congr (not_congr (hf c)) ih

/-! ### What stands around an underscore -/

/-- An underscore looks back no farther than to a character that is none. -/
theorem Surrounded.of_append (h : Surrounded p (as ++ bs)) (hb : ∀ c ∈ bs.head?, c ≠ '_') :
    Surrounded p bs := by
  rintro xs ys rfl
  obtain ⟨⟨x, hx, hpx⟩, hbehind⟩ := h (as ++ xs) ys (List.append_assoc as xs _).symm
  refine ⟨⟨x, ?_, hpx⟩, hbehind⟩
  cases xs with
  | nil => exact absurd rfl (hb '_' rfl)
  | cons y ys => rwa [List.getLast?_append_cons] at hx

/-- A character that may not stand beside an underscore parts the text in two. -/
theorem surrounded_append_cons (hc : c ≠ '_') (hpc : ¬ p c) :
    Surrounded p (as ++ c :: bs) ↔ Surrounded p as ∧ Surrounded p bs := by
  constructor
  · intro h
    refine ⟨fun xs ys heq => ?_, fun xs ys heq => ?_⟩
    · obtain ⟨hbefore, x, hx, hpx⟩ := h xs (ys ++ c :: bs) (by rw [heq]; simp)
      refine ⟨hbefore, x, ?_, hpx⟩
      cases ys with
      | nil => exact absurd (Option.some.inj hx ▸ hpx) hpc
      | cons y ys => exact hx
    · obtain ⟨⟨x, hx, hpx⟩, hbehind⟩ := h (as ++ c :: xs) ys (by rw [heq]; simp)
      refine ⟨⟨x, ?_, hpx⟩, hbehind⟩
      cases xs with
      | nil =>
        obtain rfl : c = x := by simpa using hx
        exact absurd hpx hpc
      | cons y xs => rwa [List.append_cons, List.getLast?_append_cons] at hx
  · rintro ⟨ha, hb⟩ xs ys heq
    rcases List.append_eq_append_iff.1 heq with ⟨zs, rfl, htail⟩ | ⟨zs, rfl, htail⟩
    · -- the underscore stands behind the character
      rcases List.cons_eq_append_iff.1 htail with ⟨rfl, heq'⟩ | ⟨zs, rfl, rfl⟩
      · exact absurd (List.cons.inj heq').1.symm hc
      · obtain ⟨⟨x, hx, hpx⟩, hbehind⟩ := hb zs ys rfl
        exact ⟨⟨x, by simp [List.getLast?_cons, Option.mem_def.1 hx], hpx⟩, hbehind⟩
    · -- the underscore stands before the character
      rcases List.cons_eq_append_iff.1 htail with ⟨rfl, heq'⟩ | ⟨zs, rfl, rfl⟩
      · exact absurd (List.cons.inj heq').1 hc
      · obtain ⟨hbefore, x, hx, hpx⟩ := ha xs zs rfl
        exact ⟨hbefore, x, by simp [Option.mem_def.1 hx], hpx⟩

theorem Separated.surrounded (hp : ¬ p '_') (h : Separated p cs) : Surrounded p cs := by
  -- one more character in front leaves what was before an underscore where it is
  have hcons : ∀ {c cs}, p c → Surrounded p cs → Surrounded p (c :: cs) := by
    intro c cs hc hcs xs ys heq
    cases xs with
    | nil => exact absurd ((List.cons.inj heq).1 ▸ hc) hp
    | cons x xs =>
      obtain ⟨⟨y, hy, hpy⟩, hbehind⟩ := hcs xs ys (List.cons.inj heq).2
      refine ⟨⟨y, ?_, hpy⟩, hbehind⟩
      rw [List.getLast?_cons, Option.mem_def.1 hy]
      rfl
  induction h with
  | single h => exact hcons h fun xs ys heq => absurd heq.symm (by simp)
  | next h _ ih => exact hcons h ih
  | underscore h rest ih =>
    intro xs ys heq
    rcases List.cons_eq_append_iff.1 heq with ⟨rfl, heq'⟩ | ⟨xs, rfl, heq'⟩
    · exact absurd ((List.cons.inj heq').1 ▸ h) hp
    · rcases List.cons_eq_append_iff.1 heq' with ⟨rfl, heq''⟩ | ⟨xs, rfl, rfl⟩
      · exact ⟨⟨_, rfl, h⟩, (List.cons.inj heq'').2 ▸ rest.exists_head⟩
      · obtain ⟨⟨y, hy, hpy⟩, hbehind⟩ := ih xs ys rfl
        refine ⟨⟨y, ?_, hpy⟩, hbehind⟩
        rw [List.getLast?_cons, List.getLast?_cons, Option.mem_def.1 hy]
        rfl

/-- Where all else is of the class, the two ways to say it agree. -/
theorem surrounded_iff (hp : ¬ p '_') (hall : ∀ c ∈ dropUnderscores cs, p c) (hne : cs ≠ []) :
    Surrounded p cs ↔ Separated p cs := by
  refine ⟨fun h => ?_, Separated.surrounded hp⟩
  have hfirst : ∀ {c cs}, Surrounded p (c :: cs) → c ≠ '_' := by
    rintro _ cs h rfl
    obtain ⟨⟨x, hx, -⟩, -⟩ := h [] cs rfl
    cases hx
  induction cs using underscoreInduction with
  | nil => exact absurd rfl hne
  | single c => exact .single (hall c (mem_dropUnderscores.2 ⟨List.mem_cons_self, hfirst h⟩))
  | underscore c cs ih =>
    obtain ⟨⟨x, hx, hpx⟩, y, hy, hpy⟩ := h [c] cs rfl
    obtain rfl : c = x := Option.some.inj hx
    have hrest : Surrounded p cs := by
      have happend : Surrounded p ([c, '_'] ++ cs) := h
      refine happend.of_append fun z hz => ?_
      obtain rfl := Option.mem_unique hy hz
      exact fun heq => hp (heq ▸ hpy)
    have hne := List.ne_nil_of_mem (List.mem_of_mem_head? hy)
    refine .underscore hpx (ih (fun z hz => hall z ?_) hne hrest)
    rw [dropUnderscores_cons (hfirst h)]
    exact List.mem_cons_of_mem c hz
  | next c d cs hd ih =>
    have hrest : Surrounded p (d :: cs) := by
      have happend : Surrounded p ([c] ++ d :: cs) := h
      refine happend.of_append fun z hz => ?_
      exact Option.some.inj hz ▸ hd
    refine .next (hall c (mem_dropUnderscores.2 ⟨List.mem_cons_self, hfirst h⟩))
      (ih (fun z hz => hall z ?_) (List.cons_ne_nil d cs) hrest)
    rw [dropUnderscores_cons (hfirst h)]
    exact List.mem_cons_of_mem c hz

/-- A text is spelled so if it is without its underscores and each of these has its place. -/
theorem separated_iff_surrounded (hp : ¬ p '_') :
    Separated p cs ↔ Separated p (dropUnderscores cs) ∧ Surrounded p cs := by
  constructor
  · intro h
    exact ⟨separated_of_forall (h.dropUnderscores_ne_nil hp) (h.forall_mem hp), h.surrounded hp⟩
  · rintro ⟨h, hsurrounded⟩
    have hall := h.forall_mem hp
    rw [dropUnderscores_of_notMem (IntegerLiteral.underscore_notMem_dropUnderscores cs)] at hall
    refine (surrounded_iff hp hall ?_).1 hsurrounded
    rintro rfl
    exact not_separated_nil h

end RubyTokens
