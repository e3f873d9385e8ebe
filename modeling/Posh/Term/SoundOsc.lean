/-
**Commands and device control strings keep the terminal sound.**

A command's payload holds no C0 controls, so neither do the texts of a hyperlink; the parts of its
parameters hold no separators.  A new hyperlink takes the next free number, so the cells drawn before
stay sound.
-/

import Mathlib.Data.List.Nodup
import Posh.Term.Osc
import Posh.Term.SoundCsi

set_option autoImplicit false

namespace Posh.Term

open Utf8 (Plain)
open List (mem_cons mem_cons_of_mem not_mem_nil)

variable {γ : Type} {s front back : List Char}

/-! ### Parts of a payload -/

theorem mem_splitOn {a : Char} {xs part : List Char} (h : part ∈ xs.splitOn a) : ∀ c ∈ part, c ∈ xs ∧ c ≠ a := by
  induction xs generalizing part with
  | nil =>
    intro c hc
    rw [show ([] : List Char).splitOn a = [[]] from rfl, List.mem_singleton] at h
    exact absurd (h ▸ hc) not_mem_nil
  | cons x xs ih =>
    intro c hc
    rw [List.splitOn_cons_eq_if_modifyHead] at h
    split at h
    · rcases mem_cons.mp h with rfl | h
      · exact absurd hc not_mem_nil
      · exact ⟨mem_cons_of_mem x (ih h c hc).1, (ih h c hc).2⟩
    · rename_i hx
      obtain ⟨hd, tl, heq⟩ := List.exists_cons_of_ne_nil (List.splitOn_ne_nil a xs)
      rw [heq, List.modifyHead_cons] at h
      rcases mem_cons.mp h with rfl | h
      · rcases mem_cons.mp hc with rfl | hc
        · exact ⟨List.mem_cons_self, by simpa using hx⟩
        · have hmem := ih (heq ▸ List.mem_cons_self) c hc
          exact ⟨mem_cons_of_mem x hmem.1, hmem.2⟩
      · have hmem := ih (heq ▸ mem_cons_of_mem hd h) c hc
        exact ⟨mem_cons_of_mem x hmem.1, hmem.2⟩

theorem splitOnce_front {c : Char} (h : splitOnce c s = some (front, back)) : c ∉ front := by
  induction s generalizing front with
  | nil => cases h
  | cons x s ih =>
    rw [splitOnce] at h
    split at h
    · cases h
      exact not_mem_nil
    · rename_i hx
      obtain ⟨⟨front', back'⟩, hsplit, heq⟩ := Option.map_eq_some_iff.mp h
      cases heq
      rw [mem_cons, not_or]
      exact ⟨fun heq => hx heq.symm, ih hsplit⟩

theorem splitOnce_getD {c : Char} (h : (splitOnce c s).getD ([], s) = (front, back)) :
    (∀ x ∈ front, x ∈ s ∧ x ≠ c) ∧ ∀ x ∈ back, x ∈ s := by
  cases hsplit : splitOnce c s with
  | none =>
    rw [hsplit] at h
    cases h
    exact ⟨List.forall_mem_nil _, fun x hx => hx⟩
  | some p =>
    rw [hsplit] at h
    obtain rfl : p = (front, back) := h
    have hspec := splitOnce_spec hsplit
    have hfront := splitOnce_front hsplit
    rw [hspec]
    refine ⟨fun x hx => ⟨List.mem_append_left _ hx, fun heq => hfront (heq ▸ hx)⟩, fun x hx => ?_⟩
    exact List.mem_append_right _ (mem_cons_of_mem _ hx)

theorem mem_of_stripPrefix {front s rest : List Char} (h : stripPrefix front s = some rest) :
    ∀ c ∈ rest, c ∈ s := by
  rw [stripPrefix] at h
  split at h
  · cases h
    exact fun c hc => List.mem_of_mem_drop hc
  · cases h

theorem plain_oscParts {data : List UInt8} (h : ∀ b ∈ data, 0x20 ≤ b.toNat) :
    ∀ c ∈ (Terminal.oscParts data).2, Plain c := by
  have hplain := Utf8.lossy_plain data h
  intro c hc
  rw [Terminal.oscParts] at hc
  cases hsplit : splitOnce ';' (Utf8.lossy data) with
  | none =>
    rw [hsplit] at hc
    exact absurd hc not_mem_nil
  | some p =>
    rw [hsplit] at hc
    refine hplain c ?_
    rw [splitOnce_spec hsplit]
    exact List.mem_append_right _ (mem_cons_of_mem _ hc)

namespace Terminal.Sound

variable {f : Frame} {t : Terminal γ} {rest : List Char}

/-! ### Commands -/

theorem oscPalette (h : t.Sound f) (bel : Bool) (parts : List (List Char)) :
    (Terminal.oscPalette bel parts t).Sound f := by
  fun_induction Terminal.oscPalette bel parts t with
  | case1 idx spec parts t t' ih =>
    refine ih ?_
    dsimp only [t']
    split
    · refine ite (ite (h.respond _) ?_) h
      split
      · exact { h with palette := List.length_set.trans h.palette }
      · exact h
    · exact h
  | case2 => exact h

theorem oscDynamicColor (h : t.Sound f) (code : ℕ) (rest : List Char) (bel : Bool) :
    (t.oscDynamicColor code rest bel).Sound f := by
  rw [Terminal.oscDynamicColor]
  refine ite (h.respond _) ?_
  split
  · exact touch (ite { h with } (ite { h with } { h with }))
  · exact h

theorem addHyperlink (h : t.Sound f) {link : Hyperlink} (hlink : link.Sound) : Sound f { t with
          nextHyperlink := t.nextHyperlink + 1
          hyperlinks := t.hyperlinks ++ [(t.nextHyperlink + 1, link)]
          cursor := { t.cursor with hyperlink := t.nextHyperlink + 1 } } := by
  have hmono : ∀ c, Cell.Sound t.hyperlinks c →
      Cell.Sound (t.hyperlinks ++ [(t.nextHyperlink + 1, link)]) c := fun c hc => hc.append _
  refine { h with
    primary := h.primary.mono hmono
    alt := h.alt.mono hmono
    cursorLink := ?_
    primaryLink := h.primaryLink.append _
    altLink := h.altLink.append _
    links := ⟨?_, ?_, ?_⟩ }
  · refine .inr (List.lookup_isSome_iff.mpr ⟨_, List.mem_append_right _ List.mem_cons_self, ?_⟩)
    exact beq_self_eq_true _
  · rw [List.map_append, List.nodup_append]
    refine ⟨h.links.keys, List.nodup_singleton _, ?_⟩
    intro k hk k' hk' heq
    obtain ⟨e, he, rfl⟩ := List.mem_map.mp hk
    have hbound := (h.links.bound e he).2
    rw [List.map_cons, List.map_nil, List.mem_singleton] at hk'
    dsimp only at hk'
    omega
  · refine List.forall_mem_append.mpr ⟨fun e he => ?_, ?_⟩
    · have hbound := h.links.bound e he
      exact ⟨hbound.1, Nat.le_succ_of_le hbound.2⟩
    · exact List.forall_mem_singleton.mpr ⟨Nat.succ_pos _, Nat.le_refl _⟩
  · exact List.forall_mem_append.mpr ⟨h.links.texts, List.forall_mem_singleton.mpr hlink⟩

theorem oscHyperlink (h : t.Sound f) (hrest : ∀ c ∈ rest, Plain c) : (t.oscHyperlink rest).Sound f := by
  rw [Terminal.oscHyperlink]
  generalize hparts : (splitOnce ';' rest).getD ([], rest) = parts
  obtain ⟨params, uri⟩ := parts
  obtain ⟨hparams, huri⟩ := splitOnce_getD hparts
  dsimp only
  split
  · exact { h with cursorLink := .inl rfl }
  · rename_i hne
    split
    · rename_i k link hfind
      exact { h with cursorLink := LinkIn.of_mem (List.mem_of_find?_eq_some hfind) }
    · refine h.addHyperlink ⟨?_, fun c hc => hrest c (huri c hc), hne⟩
      -- the id is what follows `id=` in a part without separators
      intro c hc
      dsimp only at hc
      cases hid : (params.splitOn ':').findSome? (stripPrefix ['i', 'd', '=']) with
      | none =>
        rw [hid] at hc
        exact absurd hc not_mem_nil
      | some id =>
        rw [hid] at hc
        obtain ⟨part, hpart, hstrip⟩ := List.exists_of_findSome?_eq_some hid
        obtain ⟨hmem, hcolon⟩ := mem_splitOn hpart c (mem_of_stripPrefix hstrip c hc)
        obtain ⟨hin, hsemi⟩ := hparams c hmem
        exact ⟨hrest c hin, hcolon, hsemi⟩

theorem setSelection (h : t.Sound f) (kind : Char) (data : List UInt8) :
    (t.setSelection kind data).Sound f := ite { h with } (ite { h with } { h with })

theorem slotLetters_plain (sel : List Char) : ∀ c ∈ slotLetters sel, Plain c := by
  intro c hc
  rw [slotLetters] at hc
  split at hc
  · rw [List.mem_singleton.mp hc]
    decide
  · have hletter := of_decide_eq_true (List.mem_filter.mp hc).2
    rcases hletter with rfl | rfl | rfl <;> decide

theorem oscClipboard (h : t.Sound f) (rest : List Char) (bel : Bool) : (t.oscClipboard rest bel).Sound f := by
  rw [Terminal.oscClipboard]
  refine ite (h.respond _) ?_
  split
  · rename_i decoded _
    refine touch ?_
    exact { foldl (fun t kind _ ht => ht.setSelection kind decoded) h with kinds := slotLetters_plain _ }
  · exact h

theorem oscTextSize (h : t.Sound f) (hrest : ∀ c ∈ rest, Plain c) : (t.oscTextSize rest).Sound f := by
  rw [Terminal.oscTextSize]
  generalize hparts : (splitOnce ';' rest).getD ([], rest) = parts
  obtain ⟨info, text⟩ := parts
  obtain ⟨-, htext⟩ := splitOnce_getD hparts
  have hnoted : Sound f { t with lastTextSize := some rest } := { h with }
  have hprinted := foldl (g := Terminal.print)
    (fun _ c (hc : c ∈ text) ht => ht.print (hrest c (htext c hc))) hnoted
  refine ite hnoted (touch ?_)
  split
  · exact ite (hprinted.setCol (hprinted.min_cols_lt _)) hprinted
  · exact hprinted

theorem oscPromptMark (h : t.Sound f) (rest : List Char) : (t.oscPromptMark rest).Sound f := by
  rw [Terminal.oscPromptMark]
  split
  · exact touch (h.modifyScr fun _ _ hs => hs.relabel _ fun _ => rfl)
  · exact h

theorem oscResetPalette (h : t.Sound f) (rest : List Char) : (t.oscResetPalette rest).Sound f := by
  refine { h with palette := ?_ }
  show (if rest = [] then _ else _ : List Rgb).length = 256
  split
  · exact length_defaultPalette
  · refine List.foldlRecOn (motive := fun palette : List Rgb => palette.length = 256) _ _ h.palette fun palette hp part _ => ?_
    split
    · split
      · rw [List.length_set, hp]
      · exact hp
    · exact hp

theorem oscCommand (h : t.Sound f) (code : ℕ) (hrest : ∀ c ∈ rest, Plain c)
    (bel : Bool) : (t.oscCommand code rest bel).Sound f := by
  rw [Terminal.oscCommand]
  exact ite { h with title := hrest, iconTitle := hrest } <| ite { h with iconTitle := hrest } <|
    ite { h with title := hrest } <| ite (h.oscPalette _ _) <| ite { h with } <| ite (h.oscHyperlink hrest) <|
    ite { h with } <| ite (h.oscDynamicColor _ _ _) <| ite { h with } <| ite (h.oscClipboard _ _) <|
    ite (h.oscTextSize hrest) <| ite { h with } <| ite (h.oscResetPalette _) <| ite { h with } <|
    ite { h with } <| ite { h with } <| ite (h.oscPromptMark _) h

/-- **Every command**; its payload holds no C0 controls. -/
theorem oscDispatch (h : t.Sound f) {data : List UInt8} (hdata : ∀ b ∈ data, 0x20 ≤ b.toNat)
    (bel : Bool) : (t.oscDispatch data bel).Sound f := by
  rw [Terminal.oscDispatch]
  split
  · exact h.oscCommand _ (plain_oscParts hdata) _
  · exact h

/-! ### Device control strings -/

theorem xtgettcap (h : t.Sound f) (data : List UInt8) : (t.xtgettcap data).Sound f := by
  rw [Terminal.xtgettcap]
  split
  · exact foldl (fun _ _ _ ht => ht.respond _) h
  · exact h

theorem decrqss (h : t.Sound f) (data : List UInt8) : (t.decrqss data).Sound f := by
  rw [Terminal.decrqss]
  split
  · exact h.respond _
  · exact h.respond _

/-- **Every device control string.** -/
theorem dcsDispatch (h : t.Sound f) (intermediates : List UInt8) (final : UInt8)
    (data : List UInt8) : (t.dcsDispatch intermediates final data).Sound f :=
  ite (h.decrqss _) (ite (h.xtgettcap _) h)

end Terminal.Sound

end Posh.Term
