/-
Doubles and their decimal texts. A double is handled by its bits: `decode`
gives the integers m and q with value m · 2^q, and `shortest` finds the fewest
decimal digits that no other double lies nearer to, the nearest of those if
there are several.

The digits are found in exact arithmetic on natural numbers. The reals that
round to a double form an interval around it, with its ends when m is even.
For one digit, two digits, and so on up to seventeen, the two neighbours of the
double on that decimal grid are tried; if any point of the grid lies in the
interval then one of these two does.

Reading is coarser: it keeps as many digits as 64 bits hold and scales their
double by a power of ten, so a long numeral may be read one last bit off.
-/

namespace CacheLayer.Real

/-- A finite double without its sign: `mantissa · 2^exponent`. -/
structure Binary where
  mantissa : Nat
  exponent : Int
  deriving Repr, DecidableEq

/-- The sign bit. -/
def isNegative (bits : UInt64) : Bool := bits >>> 63 != 0

/-- Mantissa and exponent of a finite double. -/
def decode (bits : UInt64) : Binary :=
  let field := (bits >>> 52).toNat % 2048
  let fraction := bits.toNat % Nat.pow 2 52
  if field = 0 then ⟨fraction, -1074⟩ else ⟨Nat.pow 2 52 + fraction, (field : Int) - 1075⟩

/-- A decimal number `digits · 10^power`. -/
structure Decimal where
  digits : Nat
  power : Int
  deriving Repr, DecidableEq

/-- Numerator and denominator scaled so that both binary and decimal exponents vanish. -/
def scale (m : Nat) (q : Int) : Nat × Nat :=
  if 0 ≤ q then (m * Nat.pow 2 q.toNat, 1) else (m, Nat.pow 2 (-q).toNat)

/-- `m · 2^q` counted in units of `10^p`, as a fraction. -/
def inUnits (m : Nat) (q p : Int) : Nat × Nat :=
  let (n, d) := scale m q
  if 0 ≤ p then (n, d * Nat.pow 10 p.toNat) else (n * Nat.pow 10 (-p).toNat, d)

/-- The point `k · 10^p` rounds to the double: it lies between the midpoints to the double's
neighbours. The lower neighbour of a power of two is only half as far away. -/
def roundsTo (b : Binary) (k : Nat) (p : Int) : Bool :=
  let closed := b.mantissa % 2 = 0
  let lower := if b.mantissa = Nat.pow 2 52 ∧ b.exponent > -1074 then 4 * b.mantissa - 1
    else 4 * b.mantissa - 2
  let (ln, ld) := inUnits lower (b.exponent - 2) p
  let (un, ud) := inUnits (4 * b.mantissa + 2) (b.exponent - 2) p
  if closed then ln ≤ k * ld && k * ud ≤ un else ln < k * ld && k * ud < un

/-- Tries the grids of `10^p`, then of `10^(p-1)`, and so on. -/
def search (b : Binary) : Nat → Int → Decimal
  | 0, p =>
    let (n, d) := inUnits b.mantissa b.exponent p
    ⟨(2 * n + d) / (2 * d), p⟩
  | fuel + 1, p =>
    let (n, d) := inUnits b.mantissa b.exponent p
    let low := n / d
    let lowFits := 0 < low && roundsTo b low p
    let highFits := roundsTo b (low + 1) p
    -- Twice the distance to the lower point against one unit of the grid.
    let rest := 2 * (n % d)
    if lowFits && highFits then
      if rest < d || (rest = d && low % 2 = 0) then ⟨low, p⟩ else ⟨low + 1, p⟩
    else if lowFits then ⟨low, p⟩
    else if highFits then ⟨low + 1, p⟩
    else search b fuel (p - 1)

/-- The largest power of ten, as an exponent, that is not above `m · 2^q`, from a start above. -/
def magnitude (b : Binary) : Nat → Int → Int
  | 0, p => p
  | fuel + 1, p =>
    let (n, d) := inUnits b.mantissa b.exponent p
    if d ≤ n then p else magnitude b fuel (p - 1)

/-- Drops the zeros at the end of the digits. -/
def trimZeros : Nat → Decimal → Decimal
  | 0, x => x
  | fuel + 1, x =>
    if x.digits % 10 = 0 && x.digits != 0 then trimZeros fuel ⟨x.digits / 10, x.power + 1⟩ else x

/-- The shortest decimal number that rounds to a double other than zero. -/
def shortest (b : Binary) : Decimal :=
  trimZeros 20 (search b 17 (magnitude b 640 309))

/-- `count` noughts. -/
def noughts (count : Nat) : List Char := List.replicate count '0'

/-- The text of a finite double: positional when the point falls within sixteen places behind
the first digit or at most four noughts before it, else with an exponent and its sign. -/
def text (bits : UInt64) : String :=
  let sign := if isNegative bits then ['-'] else []
  let b := decode bits
  if b.mantissa = 0 then String.ofList (sign ++ ['0', '.', '0'])
  else
    let x := shortest b
    let digits := Nat.toDigits 10 x.digits
    let point : Int := digits.length + x.power
    let body :=
      if 0 ≤ x.power && point ≤ 16 then digits ++ noughts x.power.toNat ++ ['.', '0']
      else if 0 < point && point ≤ 16 then
        digits.take point.toNat ++ '.' :: digits.drop point.toNat
      else if -5 < point && point ≤ 0 then
        '0' :: '.' :: noughts (-point).toNat ++ digits
      else
        let lead := digits.take 1 ++ (if digits.length = 1 then [] else '.' :: digits.drop 1)
        let e := point - 1
        lead ++ 'e' :: (if e < 0 then '-' else '+') :: Nat.toDigits 10 e.natAbs
    String.ofList (sign ++ body)

/-! ## Reading -/

/-- Takes digits before the point behind `kept` while the number stays below 2 to the 64th. Each
digit after those only raises the power. -/
def takeWhole (kept : Nat) : List Nat → Decimal
  | [] => ⟨kept, 0⟩
  | d :: ds =>
    if kept * 10 + d < Nat.pow 2 64 then takeWhole (kept * 10 + d) ds else ⟨kept, (d :: ds).length⟩

/-- Takes digits behind the point while the number stays below 2 to the 64th. The digits after
those are dropped. -/
def takeFraction (x : Decimal) : List Nat → Decimal
  | [] => x
  | d :: ds =>
    if x.digits * 10 + d < Nat.pow 2 64 then takeFraction ⟨x.digits * 10 + d, x.power - 1⟩ ds else x

/-- The double nearest to a power of ten. -/
def tenTo (n : Nat) : Float := Float.ofScientific 1 false n

/-- `f · 10^power` in at most three steps of double arithmetic, each of which rounds; `none` if
it is beyond all doubles. The result may miss the nearest double by a last bit. -/
def scaleUp? (f : Float) (power : Int) : Option Float :=
  if power.natAbs ≤ 308 then
    if 0 ≤ power then
      let g := f * tenTo power.natAbs
      if g.isInf then none else some g
    else some (f / tenTo power.natAbs)
  else if f == 0 then some f
  else if 0 ≤ power then none
  else scaleUp? (f / tenTo 308) (power + 308)
termination_by (-power).toNat
decreasing_by omega

/-- The bits of the double that a decimal number is read as, `none` if that is beyond all
doubles. -/
def ofDecimal? (negative : Bool) (x : Decimal) : Option UInt64 :=
  (scaleUp? (Float.ofNat x.digits) x.power).map fun f =>
    if negative then f.toBits ||| (1 : UInt64) <<< 63 else f.toBits

end CacheLayer.Real
