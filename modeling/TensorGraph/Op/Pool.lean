import TensorGraph.Op.Inputs
/-!
# Pooling windows

A pooling operation leaves the first two axes (batch and channels) alone and slides a
window over the others.  On an axis padded to `p` places a kernel of `k` places that moves
by `s` has `(p - k) / s + 1` positions; rounding up adds one for a rest.
-/
namespace TensorGraph

/-- The window along one axis. -/
structure AxisWindow where
  kernel : Nat
  stride : Nat
  padBegin : Nat
  padEnd : Nat

namespace AxisWindow

/-- Number of window positions on an axis of the given size. -/
def outputSize (w : AxisWindow) (rounding : Rounding) (size : Nat) : Except AttributeFault Nat :=
  let padded := size + w.padBegin + w.padEnd
  if sizeLimit ≤ padded then .error .paddedSizeOverflow
  else if padded < w.kernel then .error (.kernelTooLarge w.kernel padded)
  else
    let span := padded - w.kernel
    match rounding with
    | .floor => .ok (span / w.stride + 1)
    | .ceil => .ok ((span + w.stride - 1) / w.stride + 1)

def outputDim (w : AxisWindow) (rounding : Rounding) : Dimension → Except AttributeFault Dimension
  | .dynamic => .ok .dynamic
  | .fixed size => do
    let out ← w.outputSize rounding size
    return .fixed out

end AxisWindow

namespace Window

/-- A window that moves without padding. -/
def unpadded (kernel strides : List Nat) : Window :=
  ⟨kernel, strides, kernel.map (fun _ => 0), kernel.map (fun _ => 0), .floor⟩

def axes (w : Window) : List AxisWindow :=
  ((w.kernel.zip w.strides).zip (w.padsBegin.zip w.padsEnd)).map
    (fun ((kernel, stride), (padBegin, padEnd)) => ⟨kernel, stride, padBegin, padEnd⟩)

def checkLength (w : Window) (list : WindowList) (values : List Nat) : Except AttributeFault Unit :=
  if values.length = w.kernel.length then .ok ()
  else .error (.windowLength list w.kernel.length values.length)

/-- The lists are of one length, and no kernel or stride is zero. -/
def validate (w : Window) : Except AttributeFault Unit := do
  if w.kernel.isEmpty then throw .emptyKernel
  w.checkLength .strides w.strides
  w.checkLength .padsBegin w.padsBegin
  w.checkLength .padsEnd w.padsEnd
  if w.kernel.contains 0 then throw .zeroKernel
  if w.strides.contains 0 then throw .zeroStride

end Window

namespace Infer

/-- The spatial dimensions of the output. -/
def poolDims (rounding : Rounding) : List AxisWindow → List Dimension → Except AttributeFault (List Dimension)
  | w :: ws, d :: ds => do
    let out ← w.outputDim rounding d
    let rest ← poolDims rounding ws ds
    return out :: rest
  | _, _ => .ok []

def pool (w : Window) (input : TensorType) : Except InferError TensorType := do
  w.validate.mapError .invalidAttribute
  if input.element = .boolean then throw (.unsupportedElementType 0 input.element)
  let rank := w.kernel.length + 2
  match input.shape with
  | .unknown => return ⟨input.element, Shape.ofRank rank⟩
  | .ranked dims =>
    if dims.length ≠ rank then throw (.incorrectRank 0 dims.length)
    let spatial ← (poolDims w.rounding w.axes (dims.drop 2)).mapError .invalidAttribute
    return ⟨input.element, .ranked (dims.take 2 ++ spatial)⟩

end Infer
end TensorGraph
