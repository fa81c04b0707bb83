import Drupe.Shell.Correctness.Putint

/-!
# `Shell.Correctness.Printf` — what `sh_printf` prints, and where it stops

A format string is text and directives, and maybe a `%` at its end (`Piece`). `expansion` is what it
stands for with its arguments; `printfBytes` is what `sh_printf` passes to `sh_putc`. They are the same
but for unsigned numbers that are negative as an `int` (`printfBytes_expansion_iff`). A `%` at the end is
taken for a directive whose character is the NUL, and the loop goes on after it (`shPrintf_stops_iff`).
-/

namespace Drupe

open Lib

/-! ## Format strings -/

inductive Piece
  | plain (c : UInt8)
  | directive (d : UInt8)
  /-- A `%` that nothing follows. -/
  | dangling
deriving DecidableEq

/-- The pieces of a format string without its NUL. -/
def formatPieces : List UInt8 → List Piece
  | [] => []
  | c :: fmt =>
    if c = 37 then
      match fmt with
      | [] => [.dangling]
      | d :: fmt => .directive d :: formatPieces fmt
    else .plain c :: formatPieces fmt

/-- The kind of argument that a piece stands for. -/
def Piece.argKind : Piece → Option VaKind
  | .directive d =>
    match Char.ofNat d.toNat with
    | 's' => some .str
    | 'd' | 'u' | 'x' | 'p' | 'c' => some .word
    | _ => none
  | _ => none

/-- The arguments match the directives of the format string. -/
def Matching (fmt : List UInt8) (args : List VaArg) : Prop :=
  args.map VaArg.kind = (formatPieces fmt).filterMap Piece.argKind

instance (fmt : List UInt8) (args : List VaArg) : Decidable (Matching fmt args) :=
  inferInstanceAs (Decidable (_ = _))

/-- The pieces, each with the argument that it stands for. -/
def assign : List Piece → List VaArg → List (Piece × Option VaArg)
  | [], _ => []
  | p :: ps, args =>
    if p.argKind.isSome then (p, args.head?) :: assign ps args.tail else (p, none) :: assign ps args

/-- The decimal numeral of a number, with its sign. -/
def decimal (z : Int) : List UInt8 := signBytes z ++ (numeral 10 z.natAbs).map digitByte

def hexadecimal (n : Nat) : List UInt8 := (numeral 16 n).map digitByte

/-- What a piece stands for. -/
def Piece.expand : Piece → Option VaArg → List UInt8
  | .plain c, _ => [c]
  | .directive d, a =>
    match Char.ofNat d.toNat, a with
    | 's', some (.str s) => cString (s.getD (text "(null)"))
    | 'd', some (.word w) => decimal (signed w)
    | 'u', some (.word w) => decimal w.toNat
    | 'x', some (.word w) => hexadecimal w.toNat
    | 'p', some (.word w) => text "0x" ++ hexadecimal w.toNat
    | 'c', some (.word w) => [w.toUInt8]
    | '%', _ => [37]
    | _, _ => [37, d]
  | .dangling, _ => []

/-- What the format string stands for. -/
def expansion (fmt : List UInt8) (args : List VaArg) : List UInt8 :=
  (assign (formatPieces fmt) args).flatMap fun x => x.1.expand x.2

/-! ## The bytes that are printed -/

/-- `printfDirective`, with the bytes that it passes to `sh_putc`. -/
def directiveBytes (d : UInt8) (args : List VaArg) : Option (List UInt8 × List VaArg) :=
  match Char.ofNat d.toNat, args with
  | 's', .str s :: args => some (cString (s.getD (text "(null)")), args)
  | 's', _ => none
  | 'd', .word w :: args | 'u', .word w :: args => some (putintBytes w 10, args)
  | 'd', _ | 'u', _ => none
  | 'x', .word w :: args => some (putintBytes w 16, args)
  | 'x', _ => none
  | 'p', .word w :: args => some (cString (text "0x") ++ putintBytes w 16, args)
  | 'p', _ => none
  | 'c', .word w :: args => some ([w.toUInt8], args)
  | 'c', _ => none
  | '%', args => some ([37], args)
  | _, args => some ([37, d], args)

/-- `shPrintf`, with the bytes that it passes to `sh_putc`. -/
def printfBytes : (fmt : List UInt8) → (args : List VaArg) → Except Fault (List UInt8)
  | [], _ => .error .outOfBounds
  | c :: fmt, args =>
    if c = 0 then .ok []
    else if c = 37 then
      match fmt with
      | [] => .error .outOfBounds
      | d :: fmt =>
        match directiveBytes d args with
        | none => .error .outOfBounds
        | some (bytes, args) => (printfBytes fmt args).map fun rest => bytes ++ rest
    else (printfBytes fmt args).map fun rest => c :: rest

theorem printfDirective_eq (sh : Shell) (d : UInt8) (args : List VaArg) :
    printfDirective sh d args = (directiveBytes d args).map fun r => (r.1.foldl shPutc sh, r.2) := by
  unfold printfDirective directiveBytes
  cases args with
  | nil => split <;> simp_all
  | cons a rest =>
      cases a with
      | str s => split <;> simp_all [shPuts]
      | word w => split <;> simp_all [shPutint_eq, shPuts, List.foldl_append]

theorem printfBytes_nul (fmt : List UInt8) (args : List VaArg) : printfBytes (0 :: fmt) args = .ok [] := by
  unfold printfBytes
  rfl

theorem printfBytes_plain {c : UInt8} (h0 : c ≠ 0) (h37 : c ≠ 37) (fmt : List UInt8) (args : List VaArg) :
    printfBytes (c :: fmt) args = (printfBytes fmt args).map fun rest => c :: rest := by
  rw [printfBytes.eq_def]
  simp only [if_neg h0, if_neg h37]

theorem printfBytes_directive (d : UInt8) (fmt : List UInt8) (args : List VaArg) :
    printfBytes (37 :: d :: fmt) args = match directiveBytes d args with
      | none => .error .outOfBounds
      | some (bytes, args) => (printfBytes fmt args).map fun rest => bytes ++ rest := by
  rw [printfBytes.eq_def]
  rfl

/-- Bytes that are put before others. -/
theorem map_putBytes (sh : Shell) (bytes : List UInt8) (r : Except Fault (List UInt8)) :
    r.map (fun rest => rest.foldl shPutc (bytes.foldl shPutc sh))
      = (r.map fun rest => bytes ++ rest).map fun all => all.foldl shPutc sh := by
  cases r with
  | error e => rfl
  | ok rest => exact congrArg Except.ok List.foldl_append.symm

/-- **Printing is putting the bytes.** -/
theorem shPrintf_eq (sh : Shell) (fmt : List UInt8) (args : List VaArg) :
    shPrintf sh fmt args = (printfBytes fmt args).map fun bytes => bytes.foldl shPutc sh := by
  fun_induction shPrintf sh fmt args with
  | case1 => rfl
  | case2 sh fmt args =>
      rw [printfBytes_nul]
      rfl
  | case3 sh args =>
      unfold printfBytes
      rfl
  | case4 sh args d fmt hdirective =>
      rw [printfDirective_eq, Option.map_eq_none_iff] at hdirective
      rw [printfBytes_directive, hdirective]
      rfl
  | case5 sh args d fmt sh' args' hdirective _ ih =>
      rw [printfDirective_eq, Option.map_eq_some_iff] at hdirective
      obtain ⟨⟨bytes, args₁⟩, hbytes, heq⟩ := hdirective
      obtain ⟨rfl, rfl⟩ := Prod.mk.inj heq
      rw [printfBytes_directive, hbytes, ih]
      exact map_putBytes sh bytes _
  | case6 sh c fmt args h0 h37 ih =>
      rw [printfBytes_plain h0 h37, ih]
      exact map_putBytes sh [c] _

theorem decimal_eq (w : UInt32) : putintBytes w 10 = decimal (signed w) := by
  have h2 : 2 ≤ (10 : UInt32).toNat := by decide
  exact putintBytes_of_fits h2 (by decide) ((numeral_fits_iff h2 w).mpr fun h => absurd h.1 (by decide))

theorem hexadecimal_eq (w : UInt32) : putintBytes w 16 = hexadecimal w.toNat := by
  have h2 : 2 ≤ (16 : UInt32).toNat := by decide
  have hvalue : putintValue w 16 = w.toNat := putintValue_nonneg fun h => absurd h.1 (by decide)
  rw [putintBytes_of_fits h2 (by decide) ((numeral_fits_iff h2 w).mpr fun h => absurd h.1 (by decide)), hvalue]
  rfl

/-! ## Piece by piece -/

/-- What is printed for a piece: an unsigned number goes through the conversion of a signed one. -/
def Piece.printed : Piece → Option VaArg → List UInt8
  | .directive d, some (.word w) =>
    if Char.ofNat d.toNat = 'u' then decimal (signed w) else (Piece.directive d).expand (some (.word w))
  | p, a => p.expand a

theorem cString_hexPrefix : cString (text "0x") = text "0x" := by decide

section Directive

variable {d : UInt8}

theorem directiveBytes_none (h : (Piece.directive d).argKind = none) (args : List VaArg) :
    directiveBytes d args = some ((Piece.directive d).printed none, args) := by
  simp only [Piece.argKind] at h
  simp only [directiveBytes, Piece.printed, Piece.expand]
  generalize Char.ofNat d.toNat = ch at h
  split at h
  case h_7 => split <;> simp_all
  all_goals cases h

theorem directiveBytes_some {a : VaArg} (h : (Piece.directive d).argKind = some a.kind) (args : List VaArg) :
    directiveBytes d (a :: args) = some ((Piece.directive d).printed (some a), args) := by
  simp only [Piece.argKind] at h
  cases a with
  | str str =>
      simp only [directiveBytes, Piece.printed, Piece.expand]
      generalize Char.ofNat d.toNat = ch at h
      split at h <;> simp_all [VaArg.kind]
  | word w =>
      simp only [directiveBytes, Piece.printed, Piece.expand]
      generalize Char.ofNat d.toNat = ch at h
      split at h <;> simp_all [VaArg.kind, decimal_eq, hexadecimal_eq, cString_hexPrefix]

/-- **A directive** takes the argument that it stands for. -/
theorem directiveBytes_eq {args : List VaArg} {kinds : List VaKind}
    (h : args.map VaArg.kind = (Piece.directive d).argKind.toList ++ kinds) :
    ∃ a args', directiveBytes d args = some ((Piece.directive d).printed a, args') ∧
      args'.map VaArg.kind = kinds ∧
      ∀ ps, assign (.directive d :: ps) args = (.directive d, a) :: assign ps args' := by
  cases hkind : (Piece.directive d).argKind with
  | none =>
      rw [hkind, Option.toList_none, List.nil_append] at h
      refine ⟨none, args, directiveBytes_none hkind args, h, fun ps => ?_⟩
      rw [assign, hkind]
      rfl
  | some kind =>
      rw [hkind, Option.toList_some, List.singleton_append] at h
      cases args with
      | nil => cases h
      | cons a args =>
          obtain ⟨rfl, hrest⟩ := List.cons.inj h
          refine ⟨some a, args, directiveBytes_some hkind args, hrest, fun ps => ?_⟩
          rw [assign, hkind]
          rfl

end Directive

/-! ## A format string -/

theorem formatPieces_directive (d : UInt8) (fmt : List UInt8) :
    formatPieces (37 :: d :: fmt) = .directive d :: formatPieces fmt := by
  rw [formatPieces.eq_def]
  rfl

theorem formatPieces_plain {c : UInt8} (h37 : c ≠ 37) (fmt : List UInt8) :
    formatPieces (c :: fmt) = .plain c :: formatPieces fmt := by
  rw [formatPieces.eq_def]
  simp only [if_neg h37]

theorem Matching.directive {d : UInt8} {fmt : List UInt8} {args : List VaArg} (h : Matching (37 :: d :: fmt) args) :
    args.map VaArg.kind = (Piece.directive d).argKind.toList ++ (formatPieces fmt).filterMap Piece.argKind := by
  unfold Matching at h
  rw [h, formatPieces_directive, List.filterMap_cons]
  cases (Piece.directive d).argKind <;> rfl

theorem Matching.plain {c : UInt8} {fmt : List UInt8} {args : List VaArg} (h37 : c ≠ 37)
    (h : Matching (c :: fmt) args) : Matching fmt args := by
  unfold Matching at h
  rw [formatPieces_plain h37] at h
  exact h

/-- **What is printed**, whatever follows the NUL. -/
theorem printfBytes_eq {fmt : List UInt8} {args : List VaArg} (hnul : 0 ∉ fmt)
    (hwhole : .dangling ∉ formatPieces fmt) (hmatch : Matching fmt args) (rest : List UInt8) :
    printfBytes (fmt ++ 0 :: rest) args
      = .ok ((assign (formatPieces fmt) args).flatMap fun x => x.1.printed x.2) := by
  fun_induction formatPieces fmt generalizing args with
  | case1 => exact printfBytes_nul rest args
  | case2 => exact absurd List.mem_cons_self hwhole
  | case3 d fmt ih =>
      obtain ⟨a, args', hbytes, hrest, hassign⟩ := directiveBytes_eq hmatch.directive
      have hfmt := ih (fun h => hnul (List.mem_cons_of_mem _ (List.mem_cons_of_mem _ h)))
        (fun h => hwhole (List.mem_cons_of_mem _ h)) hrest
      rw [List.cons_append, List.cons_append, printfBytes_directive, hbytes, hassign, List.flatMap_cons]
      show (printfBytes (fmt ++ 0 :: rest) args').map _ = _
      rw [hfmt]
      rfl
  | case4 c fmt h37 ih =>
      have h0 : c ≠ 0 := fun h => hnul (h ▸ List.mem_cons_self)
      have hfmt := ih (fun h => hnul (List.mem_cons_of_mem _ h)) (fun h => hwhole (List.mem_cons_of_mem _ h))
        (hmatch.plain h37)
      rw [List.cons_append, printfBytes_plain h0 h37, hfmt]
      rfl

/-! ## Unsigned numbers -/

/-- The piece stands for an unsigned decimal number. -/
def Piece.isUnsigned : Piece → Bool
  | .directive d => Char.ofNat d.toNat = 'u'
  | _ => false

/-- The arguments that stand for unsigned decimal numbers. -/
def unsignedArgs (fmt : List UInt8) (args : List VaArg) : List UInt32 :=
  (assign (formatPieces fmt) args).filterMap fun x =>
    match x.2 with
    | some (.word w) => if x.1.isUnsigned then some w else none
    | _ => none

/-- Two lists whose first elements differ. -/
def Part {β : Type} (l l' : List β) : Prop := ∃ a t b t', l = a :: t ∧ l' = b :: t' ∧ a ≠ b

theorem Part.append_ne {β : Type} {l l' : List β} (h : Part l l') (t t' : List β) : l ++ t ≠ l' ++ t' := by
  obtain ⟨a, s, b, s', rfl, rfl, hne⟩ := h
  exact fun heq => hne (List.cons.inj heq).1

theorem Part.ne {β : Type} {l l' : List β} (h : Part l l') : l ≠ l' := by
  have happend := h.append_ne [] []
  rwa [List.append_nil, List.append_nil] at happend

/-- Lists that are put together from pieces are the same only if the pieces are, when pieces that differ do so
    in their first elements. -/
theorem flatMap_eq_iff {α β : Type} {f g : α → List β} {l : List α}
    (h : ∀ x ∈ l, f x = g x ∨ Part (f x) (g x)) : l.flatMap f = l.flatMap g ↔ ∀ x ∈ l, f x = g x := by
  induction l with
  | nil => simp
  | cons x l ih =>
      have ih := ih fun y hy => h y (List.mem_cons_of_mem x hy)
      rw [List.flatMap_cons, List.flatMap_cons, List.forall_mem_cons, ← ih]
      rcases h x List.mem_cons_self with heq | hpart
      · rw [heq, List.append_cancel_left_eq]
        exact (and_iff_right rfl).symm
      · exact iff_of_false (hpart.append_ne _ _) fun hall => hpart.ne hall.1

theorem decimal_signed {w : UInt32} (h : w < 0x80000000) : decimal (signed w) = decimal w.toNat := by
  unfold signed
  rw [if_pos h]

/-- A digit is not a sign. -/
theorem digitByte_ne_minus {d : Nat} (h : d < 10) : digitByte d ≠ 45 := by
  have hall : ∀ d : Fin 10, digitByte d.val ≠ 45 := by decide
  exact hall ⟨d, h⟩

/-- A word that is negative as an `int`. -/
theorem decimal_part {w : UInt32} (h : 0x80000000 ≤ w) : Part (decimal (signed w)) (decimal w.toNat) := by
  have hneg : signed w < 0 := by
    have hw := w.toNat_lt
    unfold signed
    rw [if_neg (UInt32.not_lt.mpr h)]
    omega
  have hnumeral := isNumeral_numeral (b := 10) (by decide) w.toNat
  obtain ⟨d, ds, hds⟩ := List.exists_cons_of_ne_nil hnumeral.ne_nil
  have hdigit := hnumeral.lt d (by rw [hds]; exact List.mem_cons_self)
  have hunsigned : decimal w.toNat = digitByte d :: ds.map digitByte := by
    show signBytes w.toNat ++ (numeral 10 w.toNat).map digitByte = _
    rw [hds, signBytes, if_neg (by omega)]
    rfl
  refine ⟨45, (numeral 10 (signed w).natAbs).map digitByte, digitByte d, _, ?_, hunsigned,
    (digitByte_ne_minus hdigit).symm⟩
  unfold decimal signBytes
  rw [if_pos hneg]
  rfl

/-- An unsigned number is the only piece that may be printed otherwise. -/
theorem Piece.printed_eq {p : Piece} {a : Option VaArg} (h : ∀ w, a = some (.word w) → p.isUnsigned = false) :
    p.printed a = p.expand a := by
  cases p with
  | plain c => rfl
  | dangling => rfl
  | directive d =>
      cases a with
      | none => rfl
      | some a =>
          cases a with
          | str str => rfl
          | word w =>
              have hnot : ¬ Char.ofNat d.toNat = 'u' := of_decide_eq_false (h w rfl)
              exact if_neg hnot

theorem Piece.printed_unsigned {p : Piece} (h : p.isUnsigned = true) (w : UInt32) :
    p.printed (some (.word w)) = decimal (signed w) ∧ p.expand (some (.word w)) = decimal w.toNat := by
  cases p with
  | plain c => cases h
  | dangling => cases h
  | directive d =>
      have hchar : Char.ofNat d.toNat = 'u' := of_decide_eq_true h
      refine ⟨if_pos hchar, ?_⟩
      simp only [Piece.expand, hchar]

/-- A piece is printed as it should be, or it is an unsigned number that is negative as an `int`, and starts
    otherwise. -/
theorem Piece.printed_cases (p : Piece) (a : Option VaArg) :
    (p.printed a = p.expand a ∧ ∀ w, a = some (.word w) → p.isUnsigned = true → w < 0x80000000) ∨
      (Part (p.printed a) (p.expand a) ∧ ∃ w, a = some (.word w) ∧ p.isUnsigned = true ∧ 0x80000000 ≤ w) := by
  by_cases hword : ∃ w, a = some (.word w) ∧ p.isUnsigned = true
  · obtain ⟨w, rfl, hunsigned⟩ := hword
    obtain ⟨hprinted, hexpand⟩ := Piece.printed_unsigned hunsigned w
    rw [hprinted, hexpand]
    rcases UInt32.lt_or_le w 0x80000000 with hlt | hge
    · refine .inl ⟨decimal_signed hlt, fun w' heq _ => ?_⟩
      cases heq
      exact hlt
    · exact .inr ⟨decimal_part hge, w, rfl, hunsigned, hge⟩
  · refine .inl ⟨Piece.printed_eq fun w ha => ?_, fun w ha hunsigned => absurd ⟨w, ha, hunsigned⟩ hword⟩
    rw [← Bool.not_eq_true]
    exact fun hunsigned => hword ⟨w, ha, hunsigned⟩

theorem Piece.printed_or (p : Piece) (a : Option VaArg) :
    p.printed a = p.expand a ∨ Part (p.printed a) (p.expand a) :=
  (p.printed_cases a).imp And.left And.left

theorem Piece.printed_iff (p : Piece) (a : Option VaArg) :
    p.printed a = p.expand a ↔ ∀ w, a = some (.word w) → p.isUnsigned = true → w < 0x80000000 := by
  rcases p.printed_cases a with ⟨heq, hsmall⟩ | ⟨hpart, w, ha, hunsigned, hge⟩
  · exact iff_of_true heq hsmall
  · exact iff_of_false hpart.ne fun hall => absurd (hall w ha hunsigned) (UInt32.not_lt.mpr hge)

theorem mem_unsignedArgs {fmt : List UInt8} {args : List VaArg} {w : UInt32} : w ∈ unsignedArgs fmt args ↔
    ∃ x ∈ assign (formatPieces fmt) args, x.2 = some (.word w) ∧ x.1.isUnsigned = true := by
  unfold unsignedArgs
  rw [List.mem_filterMap]
  constructor
  · rintro ⟨⟨p, a⟩, hx, hw⟩
    refine ⟨(p, a), hx, ?_⟩
    split at hw
    · rename_i w' ha
      split at hw
      · rename_i hunsigned
        exact ⟨ha.trans (by rw [Option.some.inj hw]), hunsigned⟩
      · cases hw
    · cases hw
  · rintro ⟨⟨p, a⟩, hx, rfl, hunsigned⟩
    exact ⟨_, hx, if_pos hunsigned⟩

/-- **When `sh_printf` prints what the format string stands for.** -/
theorem printfBytes_expansion_iff {fmt : List UInt8} {args : List VaArg} (hnul : 0 ∉ fmt)
    (hwhole : .dangling ∉ formatPieces fmt) (hmatch : Matching fmt args) (rest : List UInt8) :
    (∀ sh, shPrintf sh (fmt ++ 0 :: rest) args
      = (printfBytes (fmt ++ 0 :: rest) args).map fun bytes => bytes.foldl shPutc sh) ∧
    (printfBytes (fmt ++ 0 :: rest) args = .ok (expansion fmt args) ↔
      ∀ w ∈ unsignedArgs fmt args, w < 0x80000000) := by
  refine ⟨fun sh => shPrintf_eq sh _ args, ?_⟩
  rw [printfBytes_eq hnul hwhole hmatch, Except.ok.injEq, expansion,
    flatMap_eq_iff fun x _ => x.1.printed_or x.2]
  constructor
  · intro h w hw
    obtain ⟨x, hx, ha, hunsigned⟩ := mem_unsignedArgs.mp hw
    exact (x.1.printed_iff x.2).mp (h x hx) w ha hunsigned
  · intro h x hx
    rw [Piece.printed_iff]
    exact fun w ha hunsigned => h w (mem_unsignedArgs.mpr ⟨x, hx, ha, hunsigned⟩)

theorem printfBytes_expansion_iff_percent :
    (∀ sh, shPrintf sh (text "%s%u%%" ++ [0]) [.str none, .word 7]
      = (printfBytes (text "%s%u%%" ++ [0]) [.str none, .word 7]).map fun bytes => bytes.foldl shPutc sh) ∧
    (printfBytes (text "%s%u%%" ++ [0]) [.str none, .word 7]
        = .ok (expansion (text "%s%u%%") [.str none, .word 7]) ↔
      ∀ w ∈ unsignedArgs (text "%s%u%%") [.str none, .word 7], w < 0x80000000) :=
  have hnul : 0 ∉ text "%s%u%%" := by decide +kernel
  have hwhole : .dangling ∉ formatPieces (text "%s%u%%") := by decide +kernel
  have hmatch : Matching (text "%s%u%%") [.str none, .word 7] := by decide +kernel
  printfBytes_expansion_iff hnul hwhole hmatch []

/-- The lowest number that is printed with a sign. -/
theorem printfBytes_unsigned :
    printfBytes (text "%u" ++ [0]) [.word 0x80000000] = .ok (text "-2147483648") ∧
    expansion (text "%u") [.word 0x80000000] = text "2147483648" := by
  exact ⟨by decide +kernel, by decide +kernel⟩

/-! ## Where it stops -/

/-- With arguments that match, `sh_printf` returns, and does the same whatever follows the NUL, even where
    nothing does. -/
def StopsAtNul (str : List UInt8) : Prop :=
  ∀ args, Matching str args → ∀ sh, ∃ sh', ∀ rest, shPrintf sh (str ++ 0 :: rest) args = .ok sh'

/-- After a `%` at the end the character that follows the NUL is read. -/
theorem printfBytes_dangling {fmt : List UInt8} {args : List VaArg} (hnul : 0 ∉ fmt)
    (hdangling : .dangling ∈ formatPieces fmt) (hmatch : Matching fmt args) :
    printfBytes (fmt ++ [0]) args = .error .outOfBounds := by
  fun_induction formatPieces fmt generalizing args with
  | case1 => cases hdangling
  | case2 =>
      rw [List.singleton_append, printfBytes_directive]
      rfl
  | case3 d fmt ih =>
      obtain ⟨a, args', hbytes, hrest, -⟩ := directiveBytes_eq hmatch.directive
      have hmem : .dangling ∈ formatPieces fmt := (List.mem_cons.mp hdangling).resolve_left (by simp)
      have hfmt := ih (fun h => hnul (List.mem_cons_of_mem _ (List.mem_cons_of_mem _ h))) hmem hrest
      rw [List.cons_append, List.cons_append, printfBytes_directive, hbytes]
      show (printfBytes (fmt ++ [0]) args').map _ = _
      rw [hfmt]
      rfl
  | case4 c fmt h37 ih =>
      have h0 : c ≠ 0 := fun h => hnul (h ▸ List.mem_cons_self)
      have hmem : .dangling ∈ formatPieces fmt := (List.mem_cons.mp hdangling).resolve_left (by simp)
      have hfmt := ih (fun h => hnul (List.mem_cons_of_mem _ h)) hmem (hmatch.plain h37)
      rw [List.cons_append, printfBytes_plain h0 h37, hfmt]
      rfl

/-- There are arguments for every format string. -/
theorem matching_exists (fmt : List UInt8) : ∃ args, Matching fmt args := by
  have hkind : ∀ k : VaKind, ∃ a : VaArg, a.kind = k := fun k =>
    match k with
    | .str => ⟨.str none, rfl⟩
    | .word => ⟨.word 0, rfl⟩
  unfold Matching
  induction (formatPieces fmt).filterMap Piece.argKind with
  | nil => exact ⟨[], rfl⟩
  | cons k kinds ih =>
      obtain ⟨a, ha⟩ := hkind k
      obtain ⟨args, hargs⟩ := ih
      exact ⟨a :: args, by rw [List.map_cons, ha, hargs]⟩

/-- **When `sh_printf` stops at the NUL**: when no `%` is left before it. -/
theorem shPrintf_stops_iff {str : List UInt8} (hnul : 0 ∉ str) : StopsAtNul str ↔ .dangling ∉ formatPieces str := by
  constructor
  · intro h hdangling
    obtain ⟨args, hmatch⟩ := matching_exists str
    obtain ⟨sh', hstops⟩ := h args hmatch bootShell
    have hreturns := hstops []
    rw [shPrintf_eq, printfBytes_dangling hnul hdangling hmatch] at hreturns
    cases hreturns
  · intro hwhole args hmatch sh
    refine ⟨((assign (formatPieces str) args).flatMap fun x => x.1.printed x.2).foldl shPutc sh, fun rest => ?_⟩
    rw [shPrintf_eq, printfBytes_eq hnul hwhole hmatch]
    rfl

theorem shPrintf_stops_iff_percent :
    StopsAtNul (text "%d%%") ↔ .dangling ∉ formatPieces (text "%d%%") :=
  have hnul : 0 ∉ text "%d%%" := by decide +kernel
  shPrintf_stops_iff hnul

/-- A `%` alone: the loop goes on after the NUL, and prints what it finds there. -/
theorem shPrintf_goes_on : shPrintf bootShell [37, 0] [] = .error .outOfBounds ∧
    printfBytes [37, 0, 65, 0] [] = .ok [37, 0, 65] ∧ ¬ StopsAtNul [37] := by
  have hpast : printfBytes [37, 0] [] = .error .outOfBounds := by decide +kernel
  have hfault : shPrintf bootShell [37, 0] [] = .error .outOfBounds := by
    rw [shPrintf_eq, hpast]
    rfl
  refine ⟨hfault, by decide +kernel, fun h => ?_⟩
  obtain ⟨sh', hstops⟩ := h [] (by decide +kernel) bootShell
  cases hfault.symm.trans (hstops [])

end Drupe
