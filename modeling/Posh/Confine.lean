/-
**Session confinement.**

With confinement on, the daemon asks the kernel for the cgroup of whoever connects and refuses a peer that
is within one of the cgroups to deny or, when there are cgroups to allow, within none of these.  The two
lists are configured as paths in one string each.  Entries are compared as texts without their trailing
slashes, which is the comparison by segments; the root has no other text than its slashes, and is dropped.
-/

import Mathlib.Data.List.DropRight
import Posh.Recording.Castx

set_option autoImplicit false

namespace Posh

/-! ### Paths and the policy -/

inductive Peer where
  | cgroup (path : List Char)
  | unknown
deriving DecidableEq, Repr

inductive Verdict where
  | allow
  | deny (why : List Char)
deriving DecidableEq, Repr

structure Confine where
  deny : List (List Char)
  allow : List (List Char)
deriving DecidableEq, Repr

namespace Confine

def trim (text : List Char) : List Char :=
  (text.dropWhile Recording.isWhitespace).rdropWhile Recording.isWhitespace

/-- `trim_end_matches('/')`. -/
def trimSlashes (text : List Char) : List Char := text.rdropWhile (· = '/')

def prefixes (raw : Option (List Char)) : List (List Char) :=
  (((raw.getD []).splitOn ':').map fun p => trimSlashes (trim p)).filter fun p => !p.isEmpty

/-- Whether the cgroup is `p` or goes on from it with a slash. -/
def under (cgroup p : List Char) : Bool :=
  let cg := trimSlashes cgroup
  cg = p || (p.isPrefixOf cg && (cg.drop p.length).head? = some '/')

/-- The policy, if `POSH_CONFINE` is `1`. -/
def fromParts (on deny allow : Option (List Char)) : Option Confine :=
  if on ≠ some ['1'] then none else some { deny := prefixes deny, allow := prefixes allow }

/-- **The verdict on a peer.** -/
def judge (c : Confine) : Peer → Verdict
  | .unknown => .deny "peer cgroup unknown".toList
  | .cgroup cg =>
    match c.deny.find? (under cg) with
    | some p => .deny ("peer in agent scope ".toList ++ p)
    | none =>
      if !c.allow.isEmpty && !c.allow.any (under cg) then
        .deny ("peer cgroup ".toList ++ cg ++ " outside the allowed scopes".toList)
      else .allow

/-! ### What the lists say -/

/-- The path of segments, without a slash at its end. -/
def join (segs : List (List Char)) : List Char := segs.flatMap ('/' :: ·)

/-- **An absolute path**: its segments, each behind a slash, and slashes at the end. -/
def IsPath (segs : List (List Char)) (text : List Char) : Prop :=
  (∀ s ∈ segs, s ≠ [] ∧ '/' ∉ s) ∧ ∃ n, text = join segs ++ List.replicate n '/'

/-- The cgroups that a configured string names: its entries without the blanks around them, unless nothing
is left. -/
def Names (raw : Option (List Char)) (segs : List (List Char)) : Prop :=
  ∃ e ∈ (raw.getD []).splitOn ':', trim e ≠ [] ∧ IsPath segs (trim e)

def WellFormed (raw : Option (List Char)) : Prop :=
  ∀ e ∈ (raw.getD []).splitOn ':', trim e ≠ [] → ∃ segs, IsPath segs (trim e)

/-- The peer is known to be in the cgroup of these segments. -/
def Located (peer : Peer) (segs : List (List Char)) : Prop := ∃ path, peer = .cgroup path ∧ IsPath segs path

/-- **Whom the lists let in**: a peer whose cgroup is known, of which no cgroup to deny is an ancestor or
itself and, if there are cgroups to allow, one of them is. -/
def Admitted (deny allow : Option (List Char)) (peer : Peer) : Prop :=
  ∃ segs, Located peer segs ∧ (∀ d, Names deny d → ¬ d <+: segs) ∧
    ((∃ a, Names allow a) → ∃ a, Names allow a ∧ a <+: segs)

/-- **Nothing hangs on the root**: another entry denies the peer; or the root is not denied and, where it is
allowed, it is so alone or beside an entry that has the peer in it; or the root is denied and the other
entries to allow leave the peer out. -/
def RootIdle (deny allow : Option (List Char)) (segs : List (List Char)) : Prop :=
  (∃ d, d ≠ [] ∧ Names deny d ∧ d <+: segs) ∨
  (¬ Names deny [] ∧ (Names allow [] → (∀ a, Names allow a → a = []) ∨ ∃ a, a ≠ [] ∧ Names allow a ∧ a <+: segs)) ∨
  (Names deny [] ∧ (∃ a, a ≠ [] ∧ Names allow a) ∧ ∀ a, a ≠ [] → Names allow a → ¬ a <+: segs)

variable {p segs : List (List Char)} {text cg : List Char} {raw : Option (List Char)}

/-! ### Comparing texts -/

theorem join_cons (s : List Char) (segs : List (List Char)) : join (s :: segs) = '/' :: (s ++ join segs) := rfl

theorem join_end (h : ∀ s ∈ segs, s ≠ [] ∧ '/' ∉ s) (hne : join segs ≠ []) : (join segs).getLast hne ≠ '/' := by
  induction segs with
  | nil => exact absurd rfl hne
  | cons s segs ih =>
    obtain ⟨⟨hs, hslash⟩, hsegs⟩ := List.forall_mem_cons.mp h
    by_cases hend : join segs = []
    · have hlast : (join (s :: segs)).getLast hne = s.getLast hs := by
        simp only [join_cons, hend, List.append_nil]
        exact List.getLast_cons hs
      rw [hlast]
      exact fun heq => hslash (heq ▸ List.getLast_mem hs)
    · have hlast : (join (s :: segs)).getLast hne = (join segs).getLast hend := by
        simp only [join_cons]
        rw [List.getLast_cons (by simp [hs]), List.getLast_append_of_ne_nil _ hend]
      rw [hlast]
      exact ih hsegs hend

theorem IsPath.trimSlashes (h : IsPath segs text) : trimSlashes text = join segs := by
  obtain ⟨hsegs, n, rfl⟩ := h
  induction n with
  | zero =>
    rw [List.replicate_zero, List.append_nil]
    exact List.rdropWhile_eq_self_iff.mpr fun hne => by simpa using join_end hsegs hne
  | succ n ih =>
    rw [List.replicate_succ', ← List.append_assoc, Confine.trimSlashes, List.rdropWhile_concat_pos _ _ _ (by decide)]
    exact ih

theorem segment_inj {s t x y : List Char} (hs : '/' ∉ s) (ht : '/' ∉ t) (hx : x.head?.getD '/' = '/')
    (hy : y.head?.getD '/' = '/') (h : s ++ x = t ++ y) : s = t ∧ x = y := by
  induction s generalizing t with
  | nil =>
    cases t with
    | nil => exact ⟨rfl, h⟩
    | cons c t =>
      rw [List.nil_append] at h
      rw [h] at hx
      exact absurd (List.mem_cons.mpr (.inl hx.symm)) ht
  | cons c s ih =>
    cases t with
    | nil =>
      rw [List.nil_append] at h
      rw [← h] at hy
      exact absurd (List.mem_cons.mpr (.inl hy.symm)) hs
    | cons d t =>
      obtain ⟨rfl, hrest⟩ := List.cons.inj h
      obtain ⟨rfl, rfl⟩ := ih (fun hm => hs (List.mem_cons_of_mem _ hm)) (fun hm => ht (List.mem_cons_of_mem _ hm))
        hrest
      exact ⟨rfl, rfl⟩

theorem join_slash (segs : List (List Char)) : (join segs).head?.getD '/' = '/' := by
  cases segs <;> rfl

/-- **Comparing texts is comparing segments.** -/
theorem join_covers (hp : ∀ s ∈ p, s ≠ [] ∧ '/' ∉ s) (hs : ∀ s ∈ segs, s ≠ [] ∧ '/' ∉ s) :
    (∃ r : List Char, join segs = join p ++ r ∧ r.head?.getD '/' = '/') ↔ p <+: segs := by
  induction p generalizing segs with
  | nil => exact ⟨fun _ => List.nil_prefix, fun _ => ⟨join segs, rfl, join_slash segs⟩⟩
  | cons a p ih =>
    cases segs with
    | nil => exact ⟨fun ⟨r, h, _⟩ => (nomatch h), fun h => absurd h.length_le (by simp)⟩
    | cons b segs =>
      obtain ⟨ha, hp⟩ := List.forall_mem_cons.mp hp
      obtain ⟨hb, hs⟩ := List.forall_mem_cons.mp hs
      rw [List.cons_prefix_cons, ← ih hp hs]
      constructor
      · rintro ⟨r, h, hr⟩
        rw [join_cons, join_cons, List.cons_append, List.append_assoc] at h
        have hslash : (join p ++ r).head?.getD '/' = '/' := by
          cases p with
          | nil => exact hr
          | cons c p => rfl
        obtain ⟨rfl, hrest⟩ := segment_inj hb.2 ha.2 (join_slash segs) hslash (List.cons.inj h).2
        exact ⟨rfl, r, hrest, hr⟩
      · rintro ⟨rfl, r, h, hr⟩
        exact ⟨r, by rw [join_cons, join_cons, h, List.cons_append, List.append_assoc], hr⟩

theorem under_path (hcg : IsPath segs cg) (hp : IsPath p text) : under cg (Confine.trimSlashes text) = true ↔ p <+: segs := by
  rw [← join_covers hp.1 hcg.1, under, hcg.trimSlashes, hp.trimSlashes]
  simp only [Bool.or_eq_true, Bool.and_eq_true, decide_eq_true_eq, List.isPrefixOf_iff_prefix]
  constructor
  · rintro (h | ⟨⟨r, h⟩, hr⟩)
    · exact ⟨[], by rw [h, List.append_nil], rfl⟩
    · rw [← h, List.drop_left] at hr
      exact ⟨r, h.symm, by rw [hr]; rfl⟩
  · rintro ⟨r, h, hr⟩
    cases r with
    | nil => exact .inl (by rw [h, List.append_nil])
    | cons c r =>
      refine .inr ⟨⟨c :: r, h.symm⟩, ?_⟩
      rw [h, List.drop_left]
      exact congrArg some hr

/-! ### The verdict -/

theorem IsPath.unique {segs' : List (List Char)} (h : IsPath segs text) (h' : IsPath segs' text) : segs = segs' := by
  have hjoin : join segs = join segs' := h.trimSlashes.symm.trans h'.trimSlashes
  have hp : segs <+: segs' := (join_covers h.1 h'.1).mp ⟨[], by rw [hjoin, List.append_nil], rfl⟩
  have hp' : segs' <+: segs := (join_covers h'.1 h.1).mp ⟨[], by rw [hjoin, List.append_nil], rfl⟩
  exact hp.eq_of_length_le hp'.length_le

theorem mem_prefixes (h : WellFormed raw) (entry : List Char) :
    entry ∈ prefixes raw ↔ ∃ e ∈ (raw.getD []).splitOn ':', ∃ segs, segs ≠ [] ∧ trim e ≠ [] ∧ IsPath segs (trim e) ∧
      entry = Confine.trimSlashes (trim e) := by
  rw [prefixes, List.mem_filter, List.mem_map]
  constructor
  · rintro ⟨⟨e, he, rfl⟩, hne⟩
    have htrim : trim e ≠ [] := by
      intro hnil
      rw [hnil] at hne
      cases hne
    obtain ⟨segs, hsegs⟩ := h e he htrim
    refine ⟨e, he, segs, ?_, htrim, hsegs, rfl⟩
    rintro rfl
    rw [hsegs.trimSlashes] at hne
    cases hne
  · rintro ⟨e, he, segs, hne, -, hsegs, rfl⟩
    refine ⟨⟨e, he, rfl⟩, ?_⟩
    rw [hsegs.trimSlashes]
    cases segs with
    | nil => exact absurd rfl hne
    | cons s segs => rfl

theorem covered_iff (h : WellFormed raw) (hcg : IsPath segs cg) :
    (∃ entry ∈ prefixes raw, under cg entry = true) ↔ ∃ d, d ≠ [] ∧ Names raw d ∧ d <+: segs := by
  constructor
  · rintro ⟨entry, hmem, hunder⟩
    obtain ⟨e, he, d, hne, htrim, hd, rfl⟩ := (mem_prefixes h entry).mp hmem
    exact ⟨d, hne, ⟨e, he, htrim, hd⟩, (under_path hcg hd).mp hunder⟩
  · rintro ⟨d, hne, ⟨e, he, htrim, hd⟩, hp⟩
    exact ⟨_, (mem_prefixes h _).mpr ⟨e, he, d, hne, htrim, hd, rfl⟩, (under_path hcg hd).mpr hp⟩

theorem prefixes_ne_nil (h : WellFormed raw) : prefixes raw ≠ [] ↔ ∃ a, a ≠ [] ∧ Names raw a := by
  constructor
  · intro hne
    obtain ⟨entry, hmem⟩ := List.exists_mem_of_ne_nil _ hne
    obtain ⟨e, he, a, hne, htrim, ha, -⟩ := (mem_prefixes h entry).mp hmem
    exact ⟨a, hne, e, he, htrim, ha⟩
  · rintro ⟨a, hne, e, he, htrim, ha⟩
    exact List.ne_nil_of_mem ((mem_prefixes h _).mpr ⟨e, he, a, hne, htrim, ha, rfl⟩)

/-- **What the verdict is**: the lists without the root. -/
theorem judge_allow {deny allow : Option (List Char)} (hdeny : WellFormed deny) (hallow : WellFormed allow)
    (hcg : IsPath segs cg) : judge { deny := prefixes deny, allow := prefixes allow } (.cgroup cg) = .allow ↔
      (¬ ∃ d, d ≠ [] ∧ Names deny d ∧ d <+: segs) ∧
        ((∃ a, a ≠ [] ∧ Names allow a) → ∃ a, a ≠ [] ∧ Names allow a ∧ a <+: segs) := by
  rw [← covered_iff hdeny hcg, ← covered_iff hallow hcg, ← prefixes_ne_nil hallow, judge]
  cases hfind : (prefixes deny).find? (under cg) with
  | some entry =>
    refine ⟨fun h => (nomatch h), fun h => absurd ⟨entry, ?_, ?_⟩ h.1⟩
    · exact List.mem_of_find?_eq_some hfind
    · exact List.find?_some hfind
  | none =>
    have hnone : ¬ ∃ entry ∈ prefixes deny, under cg entry = true := fun ⟨entry, hmem, h⟩ =>
      List.find?_eq_none.mp hfind entry hmem h
    rw [← List.any_eq_true (l := prefixes allow)]
    dsimp only
    cases hempty : (prefixes allow).isEmpty with
    | true => exact ⟨fun _ => ⟨hnone, fun h => absurd (List.isEmpty_iff.mp hempty) h⟩, fun _ => rfl⟩
    | false =>
      have hne : prefixes allow ≠ [] := fun h => by rw [h] at hempty; cases hempty
      cases hany : (prefixes allow).any (under cg) with
      | true => exact ⟨fun _ => ⟨hnone, fun _ => rfl⟩, fun _ => rfl⟩
      | false => exact ⟨fun h => (nomatch h), fun h => absurd (h.2 hne) Bool.false_ne_true⟩

/-- **The verdict is what the lists say exactly when nothing hangs on the root**, for a peer that cannot be
placed or is in any cgroup, and whatever the lists name. -/
theorem judge_admitted_iff (deny allow : Option (List Char)) (peer : Peer) (hdeny : WellFormed deny)
    (hallow : WellFormed allow) (hpeer : ∀ path, peer = .cgroup path → ∃ segs, IsPath segs path) :
    ((fromParts (some ['1']) deny allow).map (judge · peer) = some .allow ↔ Admitted deny allow peer) ↔
      ∀ segs, Located peer segs → RootIdle deny allow segs := by
  have hparts : fromParts (some ['1']) deny allow = some { deny := prefixes deny, allow := prefixes allow } := rfl
  rw [hparts, Option.map_some, Option.some.injEq]
  cases peer with
  | unknown =>
    refine iff_of_true ⟨fun h => (nomatch h), fun ⟨_, ⟨_, h, _⟩, _⟩ => (nomatch h)⟩ fun _ ⟨_, h, _⟩ => (nomatch h)
  | cgroup path =>
    obtain ⟨segs, hsegs⟩ := hpeer path rfl
    have hall (P : List (List Char) → Prop) : (∀ s, Located (.cgroup path) s → P s) ↔ P segs := by
      refine ⟨fun h => h segs ⟨path, rfl, hsegs⟩, fun h s ⟨_, heq, hs⟩ => ?_⟩
      cases heq
      rwa [hs.unique hsegs]
    have hadmitted : Admitted deny allow (.cgroup path) ↔ (∀ d, Names deny d → ¬ d <+: segs) ∧
        ((∃ a, Names allow a) → ∃ a, Names allow a ∧ a <+: segs) := by
      refine ⟨fun ⟨s, ⟨_, heq, hs⟩, h⟩ => ?_, fun h => ⟨segs, ⟨path, rfl, hsegs⟩, h⟩⟩
      cases heq
      rwa [hs.unique hsegs] at h
    have hroot (raw : Option (List Char)) (P : List (List Char) → Prop) :
        (∃ a, Names raw a ∧ P a) ↔ (∃ a, a ≠ [] ∧ Names raw a ∧ P a) ∨ (Names raw [] ∧ P []) := by
      constructor
      · rintro ⟨a, ha, hp⟩
        by_cases hne : a = []
        · exact .inr (hne ▸ ⟨ha, hp⟩)
        · exact .inl ⟨a, hne, ha, hp⟩
      · rintro (⟨a, -, h⟩ | h)
        · exact ⟨a, h⟩
        · exact ⟨[], h⟩
    have hdenied := hroot deny (· <+: segs)
    have hnamed := hroot allow fun _ => True
    have hcovered := hroot allow (· <+: segs)
    rw [judge_allow hdeny hallow hsegs, hadmitted, hall, RootIdle]
    simp only [List.nil_prefix, and_true] at hdenied hnamed hcovered
    have hnone : (∀ d, Names deny d → ¬ d <+: segs) ↔ ¬ ∃ d, Names deny d ∧ d <+: segs := by
      simp only [not_exists, not_and]
    have honly : (∀ a, Names allow a → a = []) ↔ ¬ ∃ a, a ≠ [] ∧ Names allow a :=
      ⟨fun h ⟨a, hne, ha⟩ => hne (h a ha), fun h a ha => by_contra fun hne => h ⟨a, hne, ha⟩⟩
    have hout : (∀ a, a ≠ [] → Names allow a → ¬ a <+: segs) ↔ ¬ ∃ a, a ≠ [] ∧ Names allow a ∧ a <+: segs := by
      simp only [not_exists, not_and]
    have hsome : (∃ a, a ≠ [] ∧ Names allow a ∧ a <+: segs) → ∃ a, a ≠ [] ∧ Names allow a :=
      fun ⟨a, hne, ha, _⟩ => ⟨a, hne, ha⟩
    rw [hnone, hdenied, hnamed, hcovered, honly, hout]
    clear hdenied hnamed hcovered hnone honly hout hall hadmitted
    generalize (∃ a, a ≠ [] ∧ Names allow a ∧ a <+: segs) = allowed at hsome ⊢
    generalize (∃ a, a ≠ [] ∧ Names allow a) = listed at hsome ⊢
    generalize (∃ d, d ≠ [] ∧ Names deny d ∧ d <+: segs) = denied
    generalize Names deny [] = rootDenied
    generalize Names allow [] = rootAllowed
    tauto

/-- A peer within the agent's cgroup, with a blank and a slash behind the entry. -/
theorem peer_within_denied :
    let deny := some ['/', 'a', '/', 'b', '/', ' ', ':', ' ']
    let peer := Peer.cgroup ['/', 'a', '/', 'b', '/', 'c']
    (fromParts (some ['1']) deny none).map (judge · peer) ≠ some .allow ∧
      ((fromParts (some ['1']) deny none).map (judge · peer) = some .allow ↔ Admitted deny none peer) := by
  intro deny peer
  have hentry : IsPath [['a'], ['b']] ['/', 'a', '/', 'b', '/'] := ⟨by decide, 1, rfl⟩
  have hpath : IsPath [['a'], ['b'], ['c']] ['/', 'a', '/', 'b', '/', 'c'] := ⟨by decide, 0, rfl⟩
  have hsplit : (deny.getD []).splitOn ':' = [['/', 'a', '/', 'b', '/', ' '], [' ']] := by decide +kernel
  have htrim : trim ['/', 'a', '/', 'b', '/', ' '] = ['/', 'a', '/', 'b', '/'] := by decide +kernel
  refine ⟨by decide +kernel, (judge_admitted_iff deny none peer ?_ ?_ ?_).mpr ?_⟩
  · rw [WellFormed, hsplit]
    exact List.forall_mem_cons.mpr ⟨fun _ => ⟨_, htrim ▸ hentry⟩,
      List.forall_mem_singleton.mpr fun h => absurd (by decide +kernel) h⟩
  · exact fun e he h => absurd (by rw [List.mem_singleton.mp he]; rfl) h
  · intro path heq
    exact ⟨_, Peer.cgroup.inj heq ▸ hpath⟩
  · rintro segs ⟨path, heq, hsegs⟩
    rw [← Peer.cgroup.inj heq] at hsegs
    refine .inl ⟨[['a'], ['b']], by decide, ⟨['/', 'a', '/', 'b', '/', ' '], by rw [hsplit]; exact List.mem_cons_self, ?_⟩, ?_⟩
    · rw [htrim]
      exact ⟨by decide, hentry⟩
    · rw [hsegs.unique hpath]
      exact ⟨[['c']], rfl⟩

/-- With the root denied, every peer is let in. -/
theorem root_denied_admitted :
    let deny := some ['/']
    let peer := Peer.cgroup ['/', 'a']
    ¬ ((fromParts (some ['1']) deny none).map (judge · peer) = some .allow ↔ Admitted deny none peer) := by
  intro deny peer h
  obtain ⟨segs, -, hdeny, -⟩ := h.mp (by decide +kernel)
  refine hdeny [] ⟨['/'], by decide +kernel, by decide +kernel, fun s hs => absurd hs List.not_mem_nil, 1, by decide +kernel⟩ ?_
  exact List.nil_prefix

end Confine

end Posh
