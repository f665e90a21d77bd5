import RoomControl.Peripherals.Board

/-!
# Boards for the bench

Boards that stand in for a real one when the node is tried out: the room board with a sensor, a
board that reports constants, and one with nothing but outputs. `Recorded` keeps what any board is
told, and can have it fail.
-/

set_option autoImplicit false

namespace RoomControl

/-- A board with outputs and nothing else. It accepts every action. -/
structure PlainBoard where
  outputs : UInt32 := 0
  deriving DecidableEq, Repr

instance : Peripherals PlainBoard where
  execute b _ _ := (.ok (), b)
  outputs := PlainBoard.outputs

/-- A board that reports constants. It accepts every action. -/
structure ConstantBoard where
  outputs : UInt32
  ledCount : UInt8
  leds : List Rgb
  lineCount : UInt8
  lines : List String
  sensor? : Option SensorReading
  deriving DecidableEq, Repr

instance : Peripherals ConstantBoard where
  execute b _ _ := (.ok (), b)
  outputs := ConstantBoard.outputs
  ledCount := ConstantBoard.ledCount
  led? b index := b.leds[index.toNat]?
  lineCount := ConstantBoard.lineCount
  line? b line := b.lines[line.toNat]?
  sensor? := ConstantBoard.sensor?

/-- A board for the bench. -/
inductive BenchBoard where
  | room (board : Board) (sensor? : Option SensorReading)
  | constant (board : ConstantBoard)
  | plain (board : PlainBoard)

namespace BenchBoard

/-- What the three input ports read when their levels are these. The room board has pins on the
first port only. -/
def sample : BenchBoard → Vector UInt8 3 → Vector UInt8 3
  | room _ _, levels => .ofFn fun i => (Board.sample levels[0] 3).getD i 0
  | _, levels => levels

/-- The room board, where there is one. -/
def room? : BenchBoard → Option Board
  | room board _ => some board
  | _ => none

instance : Peripherals BenchBoard where
  execute
    | room board sensor?, device, value =>
      let (result, board) := Peripherals.execute board device value
      (result, room board sensor?)
    | b, _, _ => (.ok (), b)
  outputs
    | room board _ => Peripherals.outputs board
    | constant board => Peripherals.outputs board
    | plain board => Peripherals.outputs board
  ledCount
    | room board _ => Peripherals.ledCount board
    | constant board => Peripherals.ledCount board
    | plain board => Peripherals.ledCount board
  led?
    | room board _ => Peripherals.led? board
    | constant board => Peripherals.led? board
    | plain board => Peripherals.led? board
  lineCount
    | room board _ => Peripherals.lineCount board
    | constant board => Peripherals.lineCount board
    | plain board => Peripherals.lineCount board
  line?
    | room board _ => Peripherals.line? board
    | constant board => Peripherals.line? board
    | plain board => Peripherals.line? board
  sensor?
    | room _ sensor? => sensor?
    | constant board => Peripherals.sensor? board
    | plain board => Peripherals.sensor? board

end BenchBoard

/-- A board together with the actions it was told, in order. -/
structure Recorded (β : Type) where
  board : β
  /-- Every action fails on the bus. -/
  failing : Bool := false
  actions : List (Device × Bytes) := []

instance {β : Type} [Peripherals β] : Peripherals (Recorded β) where
  execute r device value :=
    let r := { r with actions := r.actions ++ [(device, value)] }
    if r.failing then (.error .bus, r)
    else
      let (result, board) := Peripherals.execute r.board device value
      (result, { r with board })
  outputs r := Peripherals.outputs r.board
  ledCount r := Peripherals.ledCount r.board
  led? r := Peripherals.led? r.board
  lineCount r := Peripherals.lineCount r.board
  line? r := Peripherals.line? r.board
  sensor? r := Peripherals.sensor? r.board

end RoomControl
