/-
**Command lines for a remote shell.**

What runs on the remote side of ssh is one string, which its shell takes apart again: assignments of the
environment, the program and its arguments.  Every text that comes from outside is put in single quotes,
its own quotes written as `'\''`.  The shell's rules for words are written down here as a reader that
refuses whatever it would expand, take for an operator or skip as a comment.
-/

import Mathlib.Data.List.TakeWhile
import Mathlib.Tactic.Common

set_option autoImplicit false

namespace Posh.Shell

open List (append_assoc append_nil map_cons map_id map_map)
open Prod (snd)

/-! ### The shell's words -/

/-- A word as it stands in the line: its characters, each with whether it is quoted. -/
abbrev Word := List (Char × Bool)

/-- A character that stands for itself outside quotes. -/
def isPlain (c : Char) : Bool :=
  c.isAlphanum || c = '_' || c = '-' || c = '=' || c = '.' || c = '/' || c = ':' || c = ',' || c = '+' || c = '@'

/-- Where the reader stands: outside quotes, behind a backslash, or within single quotes. -/
inductive Mode where
  | bare
  | escaped
  | quoted
deriving DecidableEq, Repr

/-- A word that has begun, with one more character. -/
def grow (word : Option Word) (c : Char) (quoted : Bool) : Option Word := some (word.getD [] ++ [(c, quoted)])

/-- **The words of a line**, if it is one simple command: blanks end a word, quotes begin one, and outside
quotes every other character has to stand for itself. -/
def words : Mode → Option Word → List Char → Option (List Word)
  | .bare, word, [] => some word.toList
  | _, _, [] => none
  | .bare, word, c :: line =>
    if c = ' ' ∨ c = '\t' then (words .bare none line).map (word.toList ++ ·)
    else if c = '\'' then words .quoted (some (word.getD [])) line
    else if c = '\\' then words .escaped word line
    else if isPlain c then words .bare (grow word c false) line
    else none
  | .escaped, word, c :: line => words .bare (if c = '\n' then word else grow word c true) line
  | .quoted, word, c :: line => if c = '\'' then words .bare word line else words .quoted (grow word c true) line

/-- What is left of a word when its quotes are removed. -/
def text (word : Word) : List Char := word.map Prod.fst

/-- A variable's name. -/
def isShellSafeName : List Char → Bool
  | [] => false
  | c :: name => (c.isAlpha || c = '_') && name.all fun c => c.isAlphanum || c = '_'

/-- The name and the value of an assignment: a word whose first equals sign outside quotes follows a name. -/
def assignment (word : Word) : Option (List Char × List Char) :=
  match word.dropWhile (· ≠ ('=', false)) with
  | [] => none
  | _ :: value =>
    let name := word.takeWhile (· ≠ ('=', false))
    if name.all (!·.2) && isShellSafeName (text name) then some (text name, text value) else none

/-- The characters of a word, all quoted or all not. -/
def marked (quoted : Bool) (s : List Char) : Word := s.map (·, quoted)

/-- The words that the shell takes for its own where a command's name stands. -/
def reserved : List (List Char) :=
  ["if", "then", "else", "elif", "fi", "do", "done", "case", "esac", "while", "until", "for", "in"].map String.toList

/-- A simple command: the assignments in front, and the words from the first that is none. -/
structure Command where
  assignments : List (List Char × List Char)
  argv : List (List Char)
deriving DecidableEq, Repr

def command : List Word → Option Command
  | [] => some ⟨[], []⟩
  | word :: rest =>
    match assignment word with
    | some a => (command rest).map fun c => { c with assignments := a :: c.assignments }
    | none => if reserved.any fun r => word = marked false r then none else some ⟨[], (word :: rest).map text⟩

/-- **What the shell makes of a line.** -/
def readCommand (line : List Char) : Option Command := (words .bare none line).bind command

/-! ### The lines -/

def shellQuote (s : List Char) : List Char :=
  '\'' :: s.flatMap (fun c => if c = '\'' then ['\'', '\\', '\'', '\''] else [c]) ++ ['\'']

inductive Family where
  | auto
  | inet
  | inet6
deriving DecidableEq, Repr

structure SshOptions where
  family : Family
  portRange : Option (List Char)
  agentSource : Option (List Char)
  channels : Bool
  agentExport : Bool
deriving DecidableEq, Repr

/-- `POSH_AGENT_EXPORT`. -/
def agentExportEnv : List Char := "POSH_AGENT_EXPORT".toList

def serverCommandHead (overrideCmd : Option (List Char)) : List Char :=
  match overrideCmd.filter (· ≠ []) with
  | some bin => shellQuote bin
  | none => "posh-server".toList

/-- The assignments in front of a line. -/
def envPrefix (envVars : List (List Char × List Char)) : List Char :=
  envVars.flatMap fun v => v.1 ++ '=' :: (shellQuote v.2 ++ [' '])

/-- The command line of the bootstrap; `serverCmd` is `POSH_SERVER_CMD`. -/
def remoteCommand (opts : SshOptions) (serverCmd : Option (List Char)) (tail : List (List Char))
    (localeVars : List (List Char × List Char)) : List Char :=
  envPrefix localeVars ++ (if opts.agentExport then agentExportEnv ++ "=1 ".toList else []) ++
    serverCommandHead serverCmd ++ " new".toList ++ (if opts.agentSource.isSome then " -A".toList else []) ++
    (if opts.channels then " --channels".toList else []) ++
    (match opts.family with
      | .inet => " -4".toList
      | .inet6 => " -6".toList
      | .auto => []) ++ (match opts.portRange with
      | some range => " -p ".toList ++ range
      | none => []) ++
    tail.flatMap fun arg => ' ' :: (if arg = ['-', '-'] then ['-', '-'] else shellQuote arg)

def envPrefixedCommand (envVars : List (List Char × List Char)) (argv : List (List Char)) : List Char :=
  envPrefix envVars ++ [' '].intercalate (argv.map shellQuote)

/-! ### Reading a text back -/

variable {word : Option Word} {pieces : List (List Char × Word)} {s : List Char}

theorem text_marked (quoted : Bool) (s : List Char) : text (marked quoted s) = s := by
  rw [text, marked, map_map]
  exact map_id s

theorem marked_append (quoted : Bool) (s t : List Char) : marked quoted (s ++ t) = marked quoted s ++ marked quoted t :=
  List.map_append

/-- **A quoted text is read as itself**, as a part of the word that it stands in. -/
theorem words_shellQuote (word : Option Word) (s rest : List Char) :
    words .bare word (shellQuote s ++ rest) = words .bare (some (word.getD [] ++ marked true s)) rest := by
  have hbody (w : Word) : words .quoted (some w)
      (s.flatMap (fun c => if c = '\'' then ['\'', '\\', '\'', '\''] else [c]) ++ '\'' :: rest) =
      words .bare (some (w ++ marked true s)) rest := by
    induction s generalizing w with
    | nil =>
      rw [marked, List.map_nil, append_nil]
      rfl
    | cons c s ih =>
      have hgrow : w ++ marked true (c :: s) = (w ++ [(c, true)]) ++ marked true s := by
        rw [append_assoc]
        rfl
      rw [List.flatMap_cons, append_assoc, hgrow, ← ih]
      by_cases hc : c = '\''
      · subst hc
        rfl
      · rw [if_neg hc, List.singleton_append, words, if_neg hc]
        rfl
  rw [← hbody, shellQuote, append_assoc]
  rfl

theorem words_plain (hs : s ≠ []) (hplain : s.all isPlain = true) (word : Option Word)
    (rest : List Char) : words .bare word (s ++ rest) = words .bare (some (word.getD [] ++ marked false s)) rest := by
  have hone {c : Char} (hc : isPlain c = true) (word : Option Word) (rest : List Char) :
      words .bare word (c :: rest) = words .bare (grow word c false) rest := by
    have hblank : ¬ (c = ' ' ∨ c = '\t') := by
      rintro (rfl | rfl) <;> exact absurd hc (by decide)
    have hquote : c ≠ '\'' := by
      rintro rfl
      exact absurd hc (by decide)
    have hslash : c ≠ '\\' := by
      rintro rfl
      exact absurd hc (by decide)
    rw [words, if_neg hblank, if_neg hquote, if_neg hslash, if_pos hc]
  induction s generalizing word with
  | nil => exact absurd rfl hs
  | cons c s ih =>
    obtain ⟨hc, hall⟩ := Bool.and_eq_true_iff.mp hplain
    rw [List.cons_append, hone hc]
    cases s with
    | nil => rfl
    | cons d s =>
      rw [ih (List.cons_ne_nil d s) hall, grow, Option.getD_some, append_assoc]
      rfl

theorem words_blank (w : Word) (rest : List Char) :
    words .bare (some w) (' ' :: rest) = (words .bare none rest).map (w :: ·) := rfl

/-! ### Reading a line back -/

/-- A piece of text that is read as one word. -/
def Reads (s : List Char) (w : Word) : Prop := ∀ rest, words .bare none (s ++ rest) = words .bare (some w) rest

theorem reads_quoted (s : List Char) : Reads (shellQuote s) (marked true s) := words_shellQuote none s

theorem reads_plain (hs : s ≠ []) (hplain : s.all isPlain = true) : Reads s (marked false s) :=
  words_plain hs hplain none

/-- Words behind a word, a blank in front of each. -/
theorem words_spaced (h : ∀ p ∈ pieces, Reads p.1 p.2) (w : Word) :
    words .bare (some w) (pieces.flatMap fun p => ' ' :: p.1) = some (w :: pieces.map snd) := by
  induction pieces generalizing w with
  | nil => rfl
  | cons p pieces ih =>
    obtain ⟨hp, hrest⟩ := List.forall_mem_cons.mp h
    rw [List.flatMap_cons, List.cons_append, words_blank, hp, ih hrest]
    rfl

/-- Words in front of a line, a blank behind each. -/
theorem words_front (h : ∀ p ∈ pieces, Reads p.1 p.2) (rest : List Char) :
    words .bare none (pieces.flatMap (fun p => p.1 ++ [' ']) ++ rest) =
      (words .bare none rest).map (pieces.map snd ++ ·) := by
  induction pieces with
  | nil => exact (Option.map_id' (x := words .bare none rest)).symm
  | cons p pieces ih =>
    obtain ⟨hp, hrest⟩ := List.forall_mem_cons.mp h
    rw [List.flatMap_cons, append_assoc, append_assoc, hp, List.singleton_append, words_blank, ih hrest,
      Option.map_map]
    rfl

theorem command_front {front : List Word} {vars : List (List Char × List Char)}
    (h : front.map assignment = vars.map some) (rest : List Word) :
    command (front ++ rest) = (command rest).map fun c => { c with assignments := vars ++ c.assignments } := by
  induction front generalizing vars with
  | nil =>
    cases vars with
    | nil => exact (Option.map_id' (x := command rest)).symm
    | cons v vars => cases h
  | cons w front ih =>
    cases vars with
    | nil => cases h
    | cons v vars =>
      obtain ⟨hw, hfront⟩ := List.cons.inj h
      rw [List.cons_append, command, hw]
      dsimp only
      rw [ih hfront, Option.map_map]
      rfl

theorem assignment_quoted (s : List Char) : assignment (marked true s) = none := by
  have hdrop : (marked true s).dropWhile (· ≠ ('=', false)) = [] := by
    refine List.dropWhile_eq_nil_iff.mpr fun x hx => ?_
    obtain ⟨c, -, rfl⟩ := List.mem_map.mp hx
    simp
  rw [assignment, hdrop]

theorem not_reserved_quoted (s : List Char) : (reserved.any fun r => marked true s = marked false r) = false := by
  have hall : ∀ r ∈ reserved, ∃ c t, r = c :: t := by
    intro r hr
    cases r with
    | nil => exact absurd hr (by decide)
    | cons c t => exact ⟨c, t, rfl⟩
  refine List.any_eq_false.mpr fun r hr h => ?_
  obtain ⟨c, t, rfl⟩ := hall r hr
  have heq := of_decide_eq_true h
  cases s with
  | nil => cases heq
  | cons d s => cases (List.cons.inj heq).1

theorem safe_chars {name : List Char} (h : isShellSafeName name = true) :
    ∀ c ∈ name, (c.isAlphanum || c = '_') = true := by
  cases name with
  | nil => exact fun c hc => absurd hc List.not_mem_nil
  | cons d name =>
    obtain ⟨hd, hall⟩ := Bool.and_eq_true_iff.mp h
    refine List.forall_mem_cons.mpr ⟨?_, List.all_eq_true.mp hall⟩
    rcases Bool.or_eq_true_iff.mp hd with hd | hd
    · rw [Char.isAlphanum, hd, Bool.true_or, Bool.true_or]
    · rw [hd, Bool.or_true]

/-- A value in quotes behind a name is assigned to it. -/
theorem assignment_assigned {v : List Char × List Char} (h : isShellSafeName v.1 = true) :
    assignment (marked false (v.1 ++ ['=']) ++ marked true v.2) = some v := by
  have hname : ∀ x ∈ marked false v.1, decide (x ≠ ('=', false)) = true := by
    have hsafe : ∀ c : Char, (c.isAlphanum || c = '_') = true → c ≠ '=' := by
      rintro c hc rfl
      exact absurd hc (by decide)
    intro x hx
    obtain ⟨c, hc, rfl⟩ := List.mem_map.mp hx
    exact decide_eq_true fun heq => hsafe c (safe_chars h c hc) (Prod.mk.inj heq).1
  have hword : marked false (v.1 ++ ['=']) ++ marked true v.2 =
      marked false v.1 ++ ('=', false) :: marked true v.2 := by
    rw [marked_append, append_assoc]
    rfl
  have hbare : (marked false v.1).all (!·.2) = true := by
    rw [marked, List.all_map]
    exact List.all_eq_true.mpr fun _ _ => rfl
  rw [hword, assignment, List.dropWhile_append_of_pos hname, List.takeWhile_append_of_pos hname,
    List.dropWhile_cons_of_neg (by decide), List.takeWhile_cons_of_neg (by decide), append_nil]
  dsimp only
  rw [hbare, text_marked, text_marked, h]
  rfl

/-! ### Both lines -/

/-- What the environment's assignments are: those given and, where asked for, that of the agent's export. -/
def exported (opts : SshOptions) : List (List Char × List Char) :=
  if opts.agentExport then [(agentExportEnv, ['1'])] else []

/-- The words between the server and the arguments given. -/
def flags (opts : SshOptions) : List (List Char) :=
  "new".toList :: ((if opts.agentSource.isSome then ["-A".toList] else []) ++
    (if opts.channels then ["--channels".toList] else []) ++
    match opts.family with
    | .inet => ["-4".toList]
    | .inet6 => ["-6".toList]
    | .auto => [])

/-- The program that the bootstrap runs. -/
def serverWord (serverCmd : Option (List Char)) : List Char := (serverCmd.filter (· ≠ [])).getD "posh-server".toList

theorem words_envPrefix (envVars : List (List Char × List Char)) (hnames : ∀ v ∈ envVars, isShellSafeName v.1 = true)
    (rest : List Char) : ∃ front, front.map assignment = envVars.map some ∧
      words .bare none (envPrefix envVars ++ rest) = (words .bare none rest).map (front ++ ·) := by
  let piece (v : List Char × List Char) : List Char × Word :=
    (v.1 ++ ['='] ++ shellQuote v.2, marked false (v.1 ++ ['=']) ++ marked true v.2)
  have hfront : envPrefix envVars = (envVars.map piece).flatMap fun p => p.1 ++ [' '] := by
    rw [envPrefix, List.flatMap_map]
    exact congrArg (envVars.flatMap ·) (funext fun v => by
      simp only [piece, append_assoc, List.cons_append, List.nil_append])
  refine ⟨(envVars.map piece).map snd, ?_, ?_⟩
  · rw [map_map, map_map]
    exact List.map_congr_left fun v hv => assignment_assigned (hnames v hv)
  · rw [hfront]
    refine words_front (List.forall_mem_map.mpr fun v hv rest => ?_) rest
    have hplain : (v.1 ++ ['=']).all isPlain = true := by
      refine List.all_eq_true.mpr fun c hc => ?_
      rcases List.mem_append.mp hc with hc | hc
      · simp only [isPlain, safe_chars (hnames v hv) c hc, Bool.true_or]
      · rw [List.mem_singleton.mp hc]
        rfl
    rw [append_assoc, words_plain (List.append_ne_nil_of_right_ne_nil _ (List.cons_ne_nil _ _)) hplain,
      words_shellQuote]
    rfl

/-- The server's word is no assignment and none of the shell's own. -/
theorem server_reads (serverCmd : Option (List Char)) : ∃ w, Reads (serverCommandHead serverCmd) w ∧
    ∀ rest, command (w :: rest) = some ⟨[], serverWord serverCmd :: rest.map text⟩ := by
  rw [serverCommandHead, serverWord]
  cases serverCmd.filter (· ≠ []) with
  | some bin =>
    refine ⟨marked true bin, reads_quoted bin, fun rest => ?_⟩
    rw [command, assignment_quoted]
    dsimp only
    rw [not_reserved_quoted, if_neg Bool.false_ne_true, map_cons, text_marked]
    rfl
  | none =>
    refine ⟨marked false "posh-server".toList, reads_plain (by decide) (by decide), fun rest => ?_⟩
    have hnone : assignment (marked false "posh-server".toList) = none := by decide
    rw [command, hnone]
    dsimp only
    rw [if_neg (by decide), map_cons, text_marked]
    rfl

theorem flags_plain (opts : SshOptions) : ∀ f ∈ flags opts, f ≠ [] ∧ f.all isPlain = true := by
  rw [flags]
  generalize opts.agentSource.isSome = source
  generalize opts.channels = channels
  generalize opts.family = family
  cases family <;> cases source <;> cases channels <;> decide

theorem remoteCommand_reads (opts : SshOptions) (serverCmd : Option (List Char)) (tail : List (List Char))
    (envVars : List (List Char × List Char)) (hrange : opts.portRange = none)
    (hnames : ∀ v ∈ envVars, isShellSafeName v.1 = true) :
    readCommand (remoteCommand opts serverCmd tail envVars) =
      some ⟨envVars ++ exported opts, serverWord serverCmd :: (flags opts ++ tail)⟩ := by
  let exports : List (List Char × Word) := if opts.agentExport then
    [(agentExportEnv ++ ['=', '1'], marked false (agentExportEnv ++ ['=', '1']))] else []
  let pieces : List (List Char × Word) := (flags opts).map (fun f => (f, marked false f)) ++ tail.map fun arg =>
    if arg = ['-', '-'] then (['-', '-'], marked false ['-', '-']) else (shellQuote arg, marked true arg)
  have hexports : ∀ p ∈ exports, Reads p.1 p.2 := by
    intro p hp
    dsimp only [exports] at hp
    split at hp
    · rw [List.mem_singleton.mp hp]
      exact reads_plain (by decide) (by decide)
    · cases hp
  have hpieces : ∀ p ∈ pieces, Reads p.1 p.2 := by
    refine List.forall_mem_append.mpr ⟨List.forall_mem_map.mpr fun f hf => ?_, List.forall_mem_map.mpr fun arg _ => ?_⟩
    · exact reads_plain (flags_plain opts f hf).1 (flags_plain opts f hf).2
    · split
      · exact reads_plain (by decide) (by decide)
      · exact reads_quoted arg
  have hline : remoteCommand opts serverCmd tail envVars = envPrefix envVars ++
      (exports.flatMap (fun p => p.1 ++ [' ']) ++ (serverCommandHead serverCmd ++ pieces.flatMap fun p => ' ' :: p.1)) := by
    have hexport : (if opts.agentExport then agentExportEnv ++ "=1 ".toList else []) =
        exports.flatMap fun p => p.1 ++ [' '] := by
      dsimp only [exports]
      split <;> rfl
    have hflags : " new".toList ++ ((if opts.agentSource.isSome then " -A".toList else []) ++
        ((if opts.channels then " --channels".toList else []) ++
          match opts.family with
          | .inet => " -4".toList
          | .inet6 => " -6".toList
          | .auto => [])) = (flags opts).flatMap (' ' :: ·) := by
      rw [flags]
      generalize opts.agentSource.isSome = source
      generalize opts.channels = channels
      generalize opts.family = family
      cases family <;> cases source <;> cases channels <;> rfl
    have htail : tail.flatMap (fun arg => ' ' :: (if arg = ['-', '-'] then ['-', '-'] else shellQuote arg)) =
        (tail.map fun arg => if arg = ['-', '-'] then (['-', '-'], marked false ['-', '-'])
          else (shellQuote arg, marked true arg)).flatMap fun p => ' ' :: p.1 := by
      rw [List.flatMap_map]
      exact congrArg (tail.flatMap ·) (funext fun arg => by split <;> rfl)
    have hflagged : ((flags opts).map fun f => (f, marked false f)).flatMap (fun p => ' ' :: p.1) =
        (flags opts).flatMap (' ' :: ·) := List.flatMap_map ..
    rw [remoteCommand, hrange, hexport, htail, List.flatMap_append, hflagged, ← hflags]
    simp only [append_assoc, List.nil_append]
  have htexts : (pieces.map snd).map text = flags opts ++ tail := by
    rw [List.map_append, List.map_append, map_map, map_map, map_map, map_map]
    refine congrArg₂ (· ++ ·) ((List.map_congr_left fun f _ => text_marked false f).trans (map_id _))
      ((List.map_congr_left fun arg _ => ?_).trans (map_id _))
    show text (if arg = ['-', '-'] then (['-', '-'], marked false ['-', '-']) else (shellQuote arg, marked true arg)).2 = arg
    split
    · rename_i harg
      rw [harg]
      rfl
    · exact text_marked true arg
  have hassigned : (exports.map snd).map assignment = (exported opts).map some := by
    dsimp only [exports]
    rw [exported]
    split
    · decide
    · rfl
  obtain ⟨front, hfront, hwords⟩ := words_envPrefix envVars hnames
    (exports.flatMap (fun p => p.1 ++ [' ']) ++ (serverCommandHead serverCmd ++ pieces.flatMap fun p => ' ' :: p.1))
  obtain ⟨w, hw, hcommand⟩ := server_reads serverCmd
  rw [readCommand, hline, hwords, words_front hexports, hw, words_spaced hpieces]
  show command (front ++ (exports.map snd ++ w :: pieces.map snd)) = _
  rw [command_front hfront, command_front hassigned, hcommand, htexts]
  simp only [Option.map_some, append_nil]

theorem envPrefixedCommand_reads (envVars : List (List Char × List Char)) (argv : List (List Char))
    (hnames : ∀ v ∈ envVars, isShellSafeName v.1 = true) :
    readCommand (envPrefixedCommand envVars argv) = some ⟨envVars, argv⟩ := by
  have hquoted : ∀ p ∈ argv.map fun arg => (shellQuote arg, marked true arg), Reads p.1 p.2 :=
    List.forall_mem_map.mpr fun arg _ => reads_quoted arg
  have hargv : words .bare none ([' '].intercalate (argv.map shellQuote)) = some (argv.map (marked true)) := by
    cases argv with
    | nil => rfl
    | cons a argv =>
      have hsplit (a : List Char) (argv : List (List Char)) : [' '].intercalate ((a :: argv).map shellQuote) =
          shellQuote a ++ (argv.map fun arg => (shellQuote arg, marked true arg)).flatMap fun p => ' ' :: p.1 := by
        induction argv generalizing a with
        | nil => rfl
        | cons b argv ih =>
          show shellQuote a ++ ([' '] ++ [' '].intercalate ((b :: argv).map shellQuote)) = _
          rw [ih]
          rfl
      rw [hsplit, reads_quoted a, words_spaced (List.forall_mem_cons.mp hquoted).2, map_map]
      rfl
  have hcommand : command (argv.map (marked true)) = some ⟨[], argv⟩ := by
    cases argv with
    | nil => rfl
    | cons a argv =>
      rw [map_cons, command, assignment_quoted]
      dsimp only
      rw [not_reserved_quoted, if_neg Bool.false_ne_true, ← map_cons, map_map]
      exact congrArg (fun words => some (Command.mk [] words))
        ((List.map_congr_left fun arg _ => text_marked true arg).trans (map_id _))
  obtain ⟨front, hfront, hwords⟩ := words_envPrefix envVars hnames ([' '].intercalate (argv.map shellQuote))
  rw [readCommand, envPrefixedCommand, hwords, hargv]
  show command (front ++ argv.map (marked true)) = _
  rw [command_front hfront, hcommand, Option.map_some, append_nil]

/-- **Both lines are read as what they were built from**: the assignments with their values, the server with
its flags, or nothing more, and the texts given as a word each. -/
theorem commands_read_back (opts : SshOptions) (serverCmd : Option (List Char)) (tail argv : List (List Char))
    (envVars : List (List Char × List Char)) (hrange : opts.portRange = none)
    (hnames : ∀ v ∈ envVars, isShellSafeName v.1 = true) :
    readCommand (remoteCommand opts serverCmd tail envVars) =
        some ⟨envVars ++ exported opts, serverWord serverCmd :: (flags opts ++ tail)⟩ ∧
      readCommand (envPrefixedCommand envVars argv) = some ⟨envVars, argv⟩ :=
  ⟨remoteCommand_reads opts serverCmd tail envVars hrange hnames, envPrefixedCommand_reads envVars argv hnames⟩

theorem hostile_command_read_back :
    let opts : SshOptions := ⟨.auto, none, none, false, false⟩
    readCommand (remoteCommand opts none [['$', '(', '\'', ')'], []] [(['L', 'A', 'N', 'G'], [';'])]) =
      some ⟨[(['L', 'A', 'N', 'G'], [';'])], ["posh-server".toList, "new".toList, ['$', '(', '\'', ')'], []]⟩ :=
  (commands_read_back ⟨.auto, none, none, false, false⟩ none [['$', '(', '\'', ')'], []] []
    [(['L', 'A', 'N', 'G'], [';'])] rfl (List.forall_mem_singleton.mpr rfl)).1

end Posh.Shell
