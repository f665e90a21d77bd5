/-!
# Channels

A peer reaches the node over one of two channels. Each has its own queue and its own outstanding
message, so what is kept per channel is a `PerChannel`.
-/

set_option autoImplicit false

namespace RoomControl

/-- The way a peer is connected. -/
inductive Channel where
  | usb
  | bluetooth
  deriving DecidableEq, Repr

/-- The channels in their fixed order. -/
def Channel.all : List Channel := [.usb, .bluetooth]

/-- One value for each channel. -/
@[ext] structure PerChannel (α : Type) where
  usb : α
  bluetooth : α
  deriving DecidableEq, Repr

namespace PerChannel

variable {α : Type}

/-- The value of a channel. -/
def get (p : PerChannel α) : Channel → α
  | .usb => p.usb
  | .bluetooth => p.bluetooth

/-- Another value for one channel. -/
def set (p : PerChannel α) : Channel → α → PerChannel α
  | .usb, a => { p with usb := a }
  | .bluetooth, a => { p with bluetooth := a }

/-- The value that each channel gets from a function. -/
def ofFn (f : Channel → α) : PerChannel α := ⟨f .usb, f .bluetooth⟩

/-- The values in channel order. -/
def toList (p : PerChannel α) : List α := [p.usb, p.bluetooth]

@[simp] theorem get_set_self (p : PerChannel α) (c : Channel) (a : α) : (p.set c a).get c = a := by
  cases c <;> rfl

theorem get_set_of_ne (p : PerChannel α) {c d : Channel} (a : α) (h : d ≠ c) :
    (p.set c a).get d = p.get d := by
  cases c <;> cases d <;> first | rfl | exact absurd rfl h

@[simp] theorem get_ofFn (f : Channel → α) (c : Channel) : (ofFn f).get c = f c := by
  cases c <;> rfl

end PerChannel

end RoomControl
