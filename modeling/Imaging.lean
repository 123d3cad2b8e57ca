import Imaging.Colour
import Imaging.Format.ByteOrder
import Imaging.Format.Coding
import Imaging.Outcome
import Imaging.Pixel.Basic
import Imaging.Pixel.Pack
import Imaging.Pixel.Unpack
import Imaging.Refusal
import Imaging.Sample.Basic
import Imaging.Sample.BigEndian
import Imaging.Size
import Imaging.Conversion
import Imaging.Stereo
import Imaging.Filter.Phase
import Imaging.Mosaic
import Imaging.Raster.Basic
import Imaging.Demosaic.Centred
import Imaging.Demosaic.Decode
import Imaging.Frame
import Imaging.Iidc.Call
import Imaging.Machine.Word
import Imaging.Machine.Raster
import Imaging.Machine.Demosaic
import Imaging.Machine.Slice
import Imaging.Machine.Conversion
import Imaging.Machine.Frame
import Imaging.Proofs.Raster.Sweep
import Imaging.Proofs.Raster.Clear
import Imaging.Proofs.Filter.Pattern
import Imaging.Proofs.Filter.Rows
import Imaging.Proofs.Filter.Symmetry
import Imaging.Proofs.Demosaic.Kernel
import Imaging.Proofs.Demosaic.Edges
import Imaging.Proofs.Demosaic.Pixel
import Imaging.Proofs.Demosaic.Depth
import Imaging.Proofs.Demosaic.Reach
import Imaging.Proofs.Demosaic.Ceiling
import Imaging.Proofs.Demosaic.Crop
import Imaging.Proofs.Demosaic.Planes
import Imaging.Proofs.Demosaic.Symmetry
import Imaging.Proofs.Demosaic.Exchange
import Imaging.Proofs.Demosaic.Rows
import Imaging.Proofs.Demosaic.Means
import Imaging.Proofs.Demosaic.Reduced
import Imaging.Proofs.Demosaic.Masks
import Imaging.Proofs.Demosaic.OutOfPlace
import Imaging.Proofs.Conversion.Length
import Imaging.Proofs.Conversion.Place
import Imaging.Proofs.Conversion.Target
import Imaging.Proofs.Conversion.Groups
import Imaging.Proofs.Conversion.ReadBack
import Imaging.Proofs.Conversion.Stages
import Imaging.Proofs.Conversion.Order
import Imaging.Proofs.Conversion.Lossless
import Imaging.Proofs.Conversion.Drift
import Imaging.Proofs.Conversion.Stack
import Imaging.Proofs.Frame.Debayer
import Imaging.Proofs.Frame.Widths
import Imaging.Proofs.Frame.Reduced
import Imaging.Proofs.Verdict
import Imaging.Proofs.Conversion.Validation
import Imaging.Proofs.Frame.Validation
import Imaging.Proofs.Frame.Relevance
import Imaging.Proofs.Frame.Range
import Imaging.Proofs.AllOrNothing
import Imaging.Proofs.Iidc.Call
import Imaging.Proofs.Machine.Raster
import Imaging.Proofs.Machine.Clear
import Imaging.Proofs.Machine.Kernel
import Imaging.Proofs.Machine.Demosaic
import Imaging.Proofs.Machine.Slice
import Imaging.Proofs.Machine.Pairs
import Imaging.Proofs.Machine.Conversion
import Imaging.Proofs.Machine.Frame
import Imaging.Proofs.Machine.Safety
import Imaging.Proofs.Demosaic.Windows
import Imaging.Proofs.Demosaic.Tiles
import Imaging.Proofs.Stereo
import Imaging.Proofs.Sample.RoundTrip
