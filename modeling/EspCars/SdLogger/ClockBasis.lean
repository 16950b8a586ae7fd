import EspCars.SdLogger.LogFormat

/-!
# Clock statements

`components/sd_logger/clock_basis.h`: the strict parsers of the `#clock` and `#utc` lines and of the
stamp of a timed meta line, projection through a clock point, and the scanner that recovers when a
file ended.
-/

namespace EspCars.SdLogger

open EspCars.Lib

/-- `ClockBasis` -/
inductive ClockBasis
  | none | est | drift | utc
  deriving DecidableEq, Repr

/-- `ClockSrc` -/
inductive ClockSrc
  | none | sync | warm | sleep | card | build
  deriving DecidableEq, Repr

/-- `ClockPoint`: an uptime and the wall time that it is held to be. -/
structure ClockPoint where
  tUs : UInt64 := 0
  utcUs : UInt64 := 0
  basis : ClockBasis := .none
  src : ClockSrc := .none
  detail : Option UInt64 := none
  deriving DecidableEq

namespace ClockPoint

def valid (p : ClockPoint) : Bool := p.basis ≠ .none

/-- `clock_project`, saturating at both ends. -/
def project (p : ClockPoint) (bootUs : UInt64) : UInt64 :=
  if bootUs ≥ p.tUs then
    let delta := bootUs - p.tUs
    if delta > 0xFFFFFFFFFFFFFFFF - p.utcUs then 0xFFFFFFFFFFFFFFFF else p.utcUs + delta
  else
    let delta := p.tUs - bootUs
    if delta > p.utcUs then 0 else p.utcUs - delta

/-- `clock_at`. -/
def restate (p : ClockPoint) (bootUs : UInt64) : ClockPoint :=
  { p with tUs := bootUs, utcUs := p.project bootUs }

end ClockPoint

/-! ## Parsers -/

/-- Upper-case digits only, 1 to 16 of them. -/
def parseHex (s : List UInt8) : Option UInt64 :=
  if s.length = 0 ∨ s.length > 16 then none else (hexFrom 0 s).map Nat.toUInt64

theorem parseHex_hexText (v : UInt64) : parseHex (hexText 16 v.toNat) = some v := by
  have hlt : v.toNat < 16 ^ 16 := v.toNat_lt
  have hne : (hexText 16 v.toNat).length ≠ 0 := by
    rw [Ne, List.length_eq_zero_iff]
    exact hexText_ne_nil (by decide) _
  have hle : ¬ (hexText 16 v.toNat).length > 16 :=
    Nat.not_lt.mpr (length_hexText_le (by decide) _)
  rw [parseHex, if_neg (not_or.mpr ⟨hne, hle⟩), hexFrom_hexText hlt, Option.map_some]
  exact congrArg some (UInt64.toNat.inj (by simp))

def decFrom (v : UInt64) : List UInt8 → Option UInt64
  | [] => some v
  | c :: s =>
    if c < 48 ∨ c > 57 then none
    else
      let d := (c - 48).toUInt64
      if v > (0xFFFFFFFFFFFFFFFF - d) / 10 then none else decFrom (v * 10 + d) s

/-- `parse_dec` -/
def parseDec (s : List UInt8) : Option UInt64 :=
  if s.length = 0 ∨ s.length > 20 then none else decFrom 0 s

/-- An anchor-marked field. -/
def parseAnchor : List UInt8 → Option UInt64
  | c :: s => if c = anchorMark then parseHex s else none
  | [] => none

def parseBasis (s : List UInt8) : Option ClockBasis :=
  if s = ascii "utc" then some .utc
  else if s = ascii "drift" then some .drift
  else if s = ascii "est" then some .est
  else none

/-- The pairing of source and basis is part of the format. -/
def parseSrc (basis : ClockBasis) (s : List UInt8) : Option ClockSrc :=
  if s = ascii "sync" ∧ basis = .utc then some .sync
  else if s = ascii "warm" ∧ basis = .utc then some .warm
  else if s = ascii "sleep" ∧ basis = .drift then some .sleep
  else if s = ascii "card" ∧ basis = .est then some .card
  else if s = ascii "build" ∧ basis = .est then some .build
  else none

/-- A `#clock` line, without its terminator. -/
def parseClockLine (s : List UInt8) : Option ClockPoint :=
  match fields s with
  | f0 :: f1 :: f2 :: f3 :: f4 :: rest => do
    guard (rest.length ≤ 1 ∧ f0 = ascii "#clock")
    let tUs ← parseAnchor f1
    let utcUs ← parseHex f2
    let basis ← parseBasis f3
    let src ← parseSrc basis f4
    match rest with
    | [] => if src = .card then none else some { tUs, utcUs, basis, src }
    | f5 :: _ =>
      if src ≠ .card ∧ src ≠ .sleep then none
      else do
        let detail ← parseDec f5
        some { tUs, utcUs, basis, src, detail := some detail }
  | _ => none

/-- A `#utc` line, without its terminator. -/
def parseUtcLine (s : List UInt8) : Option ClockPoint :=
  match fields s with
  | [f0, f1, f2] => do
    guard (f0 = ascii "#utc")
    let tUs ← parseHex f1
    let utcUs ← parseHex f2
    some { tUs, utcUs, basis := .utc, src := .sync }
  | _ => none

/-- The stamp of a timed meta line. -/
def parseMetaStamp (s : List UInt8) : Option UInt64 :=
  if s.length < 4 ∨ !isMeta s then none
  else
    match s.dropWhile (· ≠ 44) with
    | [] => none
    | _ :: field =>
      if field.length < 2 then none
      else parseAnchor (field.takeWhile (· ≠ 44))

/-! ## `ClockTailScanner` -/

/-- `buf_` is the start of the line, `buf_[0 .. len_)`. -/
structure ClockTailScanner where
  buf : List UInt8 := []
  skipping : Bool
  overlong : Bool := false
  clock : ClockPoint := {}
  maxT : UInt64 := 0
  deriving DecidableEq

namespace ClockTailScanner

def init (startsMidFile : Bool) : ClockTailScanner := { skipping := startsMidFile }

/-- A complete line is read. -/
def line (c : ClockTailScanner) (s : List UInt8) : ClockTailScanner :=
  if !isMeta s then c
  else if ascii "#sdlog," <+: s then { c with clock := {}, maxT := 0 }
  else if ascii "#clock," <+: s ∨ ascii "#utc," <+: s then
    match (if ascii "#clock," <+: s then parseClockLine s else parseUtcLine s) with
    | some p => { c with clock := p, maxT := p.tUs }
    | none => c
  else
    match parseMetaStamp s with
    | some t => if c.clock.valid ∧ t > c.maxT then { c with maxT := t } else c
    | none => c

/-- A byte is read. -/
def feed (c : ClockTailScanner) (b : UInt8) : ClockTailScanner :=
  if b = newline then
    let c := if !c.skipping ∧ !c.overlong then c.line c.buf else c
    { c with skipping := false, overlong := false, buf := [] }
  else if c.skipping ∨ c.overlong then c
  else if c.buf.length = maxLine then { c with overlong := true }
  else { c with buf := c.buf ++ [b] }

/-- The newest clock statement at the latest timed line after it. -/
def end_ (c : ClockTailScanner) : Option ClockPoint :=
  if !c.clock.valid then none else some (c.clock.restate c.maxT)

end ClockTailScanner

end EspCars.SdLogger
