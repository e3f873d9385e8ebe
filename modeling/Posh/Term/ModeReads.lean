/-
**Reading private modes and cursor addresses.**

Most private modes are nothing but a mode: the sequence that sets or resets one does no more than that.  A
cursor address names a row and a column, counted from one.
-/

import Posh.Term.Replay

set_option autoImplicit false

namespace Posh.Term.Terminal

/-! ### Private modes -/

/-- A private mode that is nothing but a mode. -/
def IsFlag (n : ℕ) : Prop := n ≤ 65535 ∧ n ∉ [3, 6, 7, 47, 1047, 1048, 1049]

instance (n : ℕ) : Decidable (IsFlag n) := inferInstanceAs (Decidable (_ ∧ _))

variable {p : Parser} {n : ℕ}

theorem reads_decset (h : p.Rests) (hn : n ≤ 65535) : p.Reads (decset n) (.csi [[n]] [] (byte '?') (byte 'h')) ∧
      p.Reads (decrst n) (.csi [[n]] [] (byte '?') (byte 'l')) :=
  ⟨Parser.reads_csi_marked h (by decide) hn (by decide), Parser.reads_csi_marked h (by decide) hn (by decide)⟩

theorem reads_flag (h : p.Rests) (hn : n ≤ 65535) (set : Bool) : p.Reads (if set then decset n else decrst n)
      (.csi [[n]] [] (byte '?') (if set then byte 'h' else byte 'l')) := by
  cases set
  · exact (reads_decset h hn).2
  · exact (reads_decset h hn).1

variable {γ : Type}

theorem dispatch_flag (hn : IsFlag n) [GraphicsStore γ] (t : Terminal γ) (set : Bool) :
    t.dispatch (.csi [[n]] [] (byte '?') (if set then byte 'h' else byte 'l')) =
      { t with modes := setMode t.modes n set }.touch := by
  have hnot := hn.2
  simp only [List.mem_cons, List.not_mem_nil, or_false, not_or] at hnot
  have hdispatch : t.dispatch (.csi [[n]] [] (byte '?') (if set then byte 'h' else byte 'l')) =
      t.setDecMode n set := by
    cases set <;> rfl
  rw [hdispatch, setDecMode, if_neg hnot.1, if_neg hnot.2.1, if_neg hnot.2.2.1,
    if_neg (by tauto), if_neg hnot.2.2.2.2.2.1]

/-! ### The cursor's place and the margins -/

theorem paramOr_pos (n m default : ℕ) (ps : List (List ℕ)) :
    paramOr ([n + 1] :: ps) 0 default = n + 1 ∧ paramOr ([n + 1] :: [m + 1] :: ps) 1 default = m + 1 := by
  simp [paramOr, param]

theorem reads_cup (h : p.Rests) {row col : ℕ} (hrow : row < 65535) (hcol : col < 65535) :
    p.Reads (cup (row + 1) (col + 1)) (.csi [[row + 1], [col + 1]] [] 0 (byte 'H')) :=
  Parser.reads_csi_numbers h hrow (List.forall_mem_singleton.mpr hcol)
    (show 1 < Parser.maxParams by decide) (by decide)

theorem dispatch_cup [GraphicsStore γ] (t : Terminal γ) (row col : ℕ) :
    t.dispatch (.csi [[row + 1], [col + 1]] [] 0 (byte 'H')) = t.moveTo row col := by
  have hmove : t.dispatch (.csi [[row + 1], [col + 1]] [] 0 (byte 'H')) =
      t.moveTo (paramOr [[row + 1], [col + 1]] 0 1 - 1) (paramOr [[row + 1], [col + 1]] 1 1 - 1) := rfl
  rw [hmove, (paramOr_pos row col 1 _).1, (paramOr_pos row col 1 []).2]
  rfl

end Posh.Term.Terminal
