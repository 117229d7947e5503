import LoopTiling.Dim

/-!
# Common layer shapes

Convolution layers of AlexNet, VGG16 and the GoogLeNet inception modules with batch size one, and
the composite extents that awkward ones are rounded up to. The bounds of a layer are in canonical
order of the dimensions.
-/
namespace LoopTiling.Layers

/-- Extents with few divisors, and what each is rounded up to. -/
def packagedComposites : List (Int × Int) := [(11, 12), (13, 15), (27, 28), (55, 56), (57, 60)]

/-- The layers, by name. -/
def packagedShapes : List (String × PerDim Nat) := [
  ("TEST", ⟨3, 3, 40, 40, 64, 1, 1⟩),
  ("ALEX_conv1", ⟨3, 3, 57, 57, 48, 96, 1⟩),
  ("ALEX_conv2_1", ⟨5, 5, 27, 27, 48, 128, 1⟩),
  ("ALEX_conv2_2", ⟨5, 5, 27, 27, 48, 128, 1⟩),
  ("ALEX_conv3", ⟨3, 3, 13, 13, 256, 384, 1⟩),
  ("ALEX_conv4", ⟨3, 3, 13, 13, 192, 384, 1⟩),
  ("ALEX_conv5", ⟨3, 3, 13, 13, 192, 256, 1⟩),
  ("VGG_conv1_1", ⟨3, 3, 224, 224, 3, 64, 1⟩),
  ("VGG_conv1_2", ⟨3, 3, 224, 224, 64, 64, 1⟩),
  ("VGG_conv2_1", ⟨3, 3, 112, 112, 64, 128, 1⟩),
  ("VGG_conv2_2", ⟨3, 3, 112, 112, 128, 128, 1⟩),
  ("VGG_conv3_1", ⟨3, 3, 56, 56, 128, 256, 1⟩),
  ("VGG_conv3_2", ⟨3, 3, 56, 56, 256, 256, 1⟩),
  ("VGG_conv3_3", ⟨3, 3, 56, 56, 256, 256, 1⟩),
  ("VGG_conv4_1", ⟨3, 3, 28, 28, 256, 512, 1⟩),
  ("VGG_conv4_2", ⟨3, 3, 28, 28, 512, 512, 1⟩),
  ("VGG_conv4_3", ⟨3, 3, 28, 28, 512, 512, 1⟩),
  ("VGG_conv5_1", ⟨3, 3, 14, 14, 512, 512, 1⟩),
  ("VGG_conv5_2", ⟨3, 3, 14, 14, 512, 512, 1⟩),
  ("VGG_conv5_3", ⟨3, 3, 14, 14, 512, 512, 1⟩),
  ("inception_3a-pool_proj", ⟨1, 1, 28, 28, 192, 32, 1⟩),
  ("inception_3a-1x1", ⟨1, 1, 28, 28, 192, 64, 1⟩),
  ("inception_3a-3x3_reduce", ⟨1, 1, 28, 28, 192, 96, 1⟩),
  ("inception_3a-3x3", ⟨3, 3, 28, 28, 96, 128, 1⟩),
  ("inception_3a-5x5_reduce", ⟨1, 1, 28, 28, 192, 16, 1⟩),
  ("inception_3a-5x5", ⟨5, 5, 28, 28, 16, 32, 1⟩),
  ("inception_3b-pool_proj", ⟨1, 1, 28, 28, 256, 64, 1⟩),
  ("inception_3b-1x1", ⟨1, 1, 28, 28, 256, 128, 1⟩),
  ("inception_3b-3x3_reduce", ⟨1, 1, 28, 28, 256, 128, 1⟩),
  ("inception_3b-3x3", ⟨3, 3, 28, 28, 128, 192, 1⟩),
  ("inception_3b-5x5_reduce", ⟨1, 1, 28, 28, 256, 32, 1⟩),
  ("inception_3b-5x5", ⟨5, 5, 28, 28, 32, 96, 1⟩),
  ("inception_4a-pool_proj", ⟨1, 1, 14, 14, 480, 64, 1⟩),
  ("inception_4a-1x1", ⟨1, 1, 14, 14, 480, 192, 1⟩),
  ("inception_4a-3x3_reduce", ⟨1, 1, 14, 14, 480, 96, 1⟩),
  ("inception_4a-3x3", ⟨3, 3, 14, 14, 96, 208, 1⟩),
  ("inception_4a-5x5_reduce", ⟨1, 1, 14, 14, 480, 16, 1⟩),
  ("inception_4a-5x5", ⟨5, 5, 14, 14, 16, 48, 1⟩),
  ("inception_4b-pool_proj", ⟨1, 1, 14, 14, 512, 64, 1⟩),
  ("inception_4b-1x1", ⟨1, 1, 14, 14, 512, 160, 1⟩),
  ("inception_4b-3x3_reduce", ⟨1, 1, 14, 14, 512, 112, 1⟩),
  ("inception_4b-3x3", ⟨3, 3, 14, 14, 112, 224, 1⟩),
  ("inception_4b-5x5_reduce", ⟨1, 1, 14, 14, 512, 24, 1⟩),
  ("inception_4b-5x5", ⟨5, 5, 14, 14, 24, 64, 1⟩),
  ("inception_4c-pool_proj", ⟨1, 1, 14, 14, 512, 64, 1⟩),
  ("inception_4c-1x1", ⟨1, 1, 14, 14, 512, 128, 1⟩),
  ("inception_4c-3x3_reduce", ⟨1, 1, 14, 14, 512, 128, 1⟩),
  ("inception_4c-3x3", ⟨3, 3, 14, 14, 128, 256, 1⟩),
  ("inception_4c-5x5_reduce", ⟨1, 1, 14, 14, 512, 24, 1⟩),
  ("inception_4c-5x5", ⟨5, 5, 14, 14, 24, 64, 1⟩),
  ("inception_4d-pool_proj", ⟨1, 1, 14, 14, 512, 64, 1⟩),
  ("inception_4d-1x1", ⟨1, 1, 14, 14, 512, 112, 1⟩),
  ("inception_4d-3x3_reduce", ⟨1, 1, 14, 14, 512, 144, 1⟩),
  ("inception_4d-3x3", ⟨3, 3, 14, 14, 144, 288, 1⟩),
  ("inception_4d-5x5_reduce", ⟨1, 1, 14, 14, 512, 32, 1⟩),
  ("inception_4d-5x5", ⟨5, 5, 14, 14, 32, 64, 1⟩),
  ("inception_4e-pool_proj", ⟨1, 1, 14, 14, 528, 128, 1⟩),
  ("inception_4e-1x1", ⟨1, 1, 14, 14, 528, 256, 1⟩),
  ("inception_4e-3x3_reduce", ⟨1, 1, 14, 14, 528, 160, 1⟩),
  ("inception_4e-3x3", ⟨3, 3, 14, 14, 160, 320, 1⟩),
  ("inception_4e-5x5_reduce", ⟨1, 1, 14, 14, 528, 32, 1⟩),
  ("inception_4e-5x5", ⟨5, 5, 14, 14, 32, 128, 1⟩),
  ("inception_5a-pool_proj", ⟨1, 1, 7, 7, 832, 128, 1⟩),
  ("inception_5a-1x1", ⟨1, 1, 7, 7, 832, 256, 1⟩),
  ("inception_5a-3x3_reduce", ⟨1, 1, 7, 7, 832, 160, 1⟩),
  ("inception_5a-3x3", ⟨3, 3, 7, 7, 160, 320, 1⟩),
  ("inception_5a-5x5_reduce", ⟨1, 1, 7, 7, 832, 32, 1⟩),
  ("inception_5a-5x5", ⟨5, 5, 7, 7, 32, 128, 1⟩),
  ("inception_5b-pool_proj", ⟨1, 1, 7, 7, 832, 128, 1⟩),
  ("inception_5b-1x1", ⟨1, 1, 7, 7, 832, 384, 1⟩),
  ("inception_5b-3x3_reduce", ⟨1, 1, 7, 7, 832, 192, 1⟩),
  ("inception_5b-3x3", ⟨3, 3, 7, 7, 192, 384, 1⟩),
  ("inception_5b-5x5_reduce", ⟨1, 1, 7, 7, 832, 48, 1⟩),
  ("inception_5b-5x5", ⟨5, 5, 7, 7, 48, 128, 1⟩)]

end LoopTiling.Layers
