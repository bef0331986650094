import BindingPower.Proofs.Standard.Drawing

/-! With the tables that build trees, a strict run fails at the first token that no valid input has
there. -/
namespace BindingPower
namespace Standard

/-- Whether some tokens of the table can follow so that all are accepted. -/
def Viable (s : Standard) (ts : List (Token Value)) : Prop :=
  ∃ us, (∀ u ∈ us, s.Draws u) ∧ Accepted (ts ++ us)

/-- Whether `p` tokens can begin an input that is accepted, and no more can: with the next token they
cannot, or there is none and they are not accepted. -/
def Fatal (s : Standard) (ts : List (Token Value)) (p : Nat) : Prop :=
  s.Viable (ts.take p) ∧
    (p < ts.length ∧ ¬ s.Viable (ts.take (p + 1)) ∨ p = ts.length ∧ ¬ Accepted ts)

variable {s : Standard} {ts us : List (Token Value)}

theorem Viable.of_append (hus : ∀ u ∈ us, s.Draws u) (h : s.Viable (ts ++ us)) : s.Viable ts := by
  obtain ⟨ws, hws, hacc⟩ := h
  exact ⟨us ++ ws, List.forall_mem_append.2 ⟨hus, hws⟩, by rwa [← List.append_assoc]⟩

/-- Before the end of what is viable nothing is fatal. -/
theorem Viable.le_of_fatal (hts : ∀ t ∈ ts, s.Draws t) (h : s.Viable ts) {j : Nat}
    (hj : s.Fatal (ts ++ us) j) : ts.length ≤ j := by
  by_contra hlt
  have hlt : j < ts.length := Nat.not_le.1 hlt
  rcases hj with ⟨-, ⟨-, hnot⟩ | ⟨hlen, -⟩⟩
  · apply hnot
    rw [List.take_append_of_le_length (by omega)]
    rw [← List.take_append_drop (j + 1) ts] at h
    exact h.of_append fun u hu => hts u (List.mem_of_mem_drop hu)
  · rw [List.length_append] at hlen
    omega

/-- The token after what is viable is fatal if nothing that begins with it is accepted. -/
theorem Viable.fatal (h : s.Viable ts) (hnot : ¬ Accepted (ts ++ us))
    (hnext : ∀ t ws, us.head? = some t → (∀ w ∈ ws, s.Draws w) → ¬ Accepted (ts ++ t :: ws)) :
    s.Fatal (ts ++ us) ts.length := by
  refine ⟨by rwa [List.take_left], ?_⟩
  cases us with
  | nil =>
    right
    exact ⟨by rw [List.append_nil], hnot⟩
  | cons t us =>
    left
    have htake : (ts ++ t :: us).take (ts.length + 1) = ts ++ [t] := by
      rw [List.take_length_add_append]
      rfl
    refine ⟨by simp, fun hviable => ?_⟩
    rw [htake] at hviable
    obtain ⟨ws, hws, hacc⟩ := hviable
    rw [List.append_assoc] at hacc
    exact hnext t ws rfl hws hacc

/-- The error of a strict run that fails is a missing prefix or an unexpected token, and its position
is the first at which the tokens cannot go on to an accepted input. -/
theorem earliest_error (hs : s.BuildsTrees) (hts : ∀ t ∈ ts, s.Draws t) {e : Failure}
    (he : ((Stream.ofTokens ts).parse false true).result = .error e) :
    ∃ (p : Nat) (err : ParseError), e = .parse err ∧
      ((∃ t, err = .missingPrefix p t) ∨ ∃ t expected, err = .unexpected p t expected) ∧
      s.Fatal ts p ∧ ∀ j, s.Fatal ts j → p ≤ j := by
  have hW := productive hs
  have hnot : ¬ Accepted ts := by
    rintro ⟨v, hv⟩
    cases he.symm.trans hv
  rcases Config.live_start.fate hW hts 0 with hacc | ⟨err, before, rest, h⟩
  · exact absurd ((accepted_iff hs hts).2 hacc) hnot
  obtain ⟨rfl, hfails, hreports, ⟨us, hus, hacc⟩, hfatal⟩ := h
  obtain ⟨hbefore, hrest⟩ := List.forall_mem_append.1 hts
  have hviable : s.Viable before :=
    ⟨us, hus, (accepted_iff hs (List.forall_mem_append.2 ⟨hbefore, hus⟩)).2 hacc⟩
  refine ⟨before.length, err, ?_, ?_, ?_, fun j hj => hviable.le_of_fatal hbefore hj⟩
  · rw [Stream.ofTokens, Stream.parse_eq_strict (hW.isEnd hts) (.inl rfl), hfails] at he
    exact (Except.error.inj he).symm
  · rw [Int.zero_add] at hreports
    cases hreports with
    | missingPrefix t => exact .inl ⟨t, rfl⟩
    | unexpected t expected => exact .inr ⟨t, expected, rfl⟩
  · refine hviable.fatal hnot fun t ws ht hws hacc => ?_
    have hmem : ∀ u ∈ before ++ t :: ws, s.Draws u :=
      List.forall_mem_append.2
        ⟨hbefore, List.forall_mem_cons.2 ⟨hrest t (List.mem_of_head? ht), hws⟩⟩
    exact hfatal t ws ht hws ((accepted_iff hs hmem).1 hacc)

/-- A sign with nothing behind it is no mistake yet: the input fails at its end. -/
theorem fatal_dangling_sign : tree.Fatal [tree.token "1", tree.token "+"] 2 := by
  have hts : ∀ t ∈ [tree.token "1", tree.token "+"], tree.Draws t := by
    simp only [List.forall_mem_cons]
    exact ⟨draws_token (by decide), draws_token (by decide), List.forall_mem_nil _⟩
  obtain ⟨p, err, he, hkind, hfatal, -⟩ := earliest_error (.inl rfl) hts
    (e := .parse (.missingPrefix 2 (some (Token.sentinel (V := Value)).profile))) rfl
  cases he
  rcases hkind with ⟨t, ht⟩ | ⟨t, x, ht⟩
  · obtain rfl : 2 = p := Int.ofNat.inj (ParseError.missingPrefix.inj ht).1
    exact hfatal
  · cases ht

end Standard

end BindingPower
