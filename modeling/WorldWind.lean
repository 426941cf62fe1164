import WorldWind.IntSets.Theorems
import WorldWind.VecBuffers.Theorems
import WorldWind.VecBuffers.BlockTheorems
import WorldWind.VecBuffers.IteratorTheorems
import WorldWind.AbsentList.Theorems
import WorldWind.Bil.Theorems
import WorldWind.MemoryCache.Eviction
import WorldWind.MemoryCache.MakeSpace
import WorldWind.NetworkStatus.Theorems
import WorldWind.Measure.Theorems
import WorldWind.Nmea.Theorems
import WorldWind.RasterProducer.Theorems
import WorldWind.RasterProducer.ProgressTheorems
import WorldWind.RasterProducer.TileGrid
import WorldWind.RasterProducer.TileNumbers
import WorldWind.Elevations.CompoundTheorems
import WorldWind.Wavelet.Files
import WorldWind.Wavelet.Accuracy
import WorldWind.Wavelet.Layout
import WorldWind.Tiff.Theorems
import WorldWind.Tiff.GeotiffRoundTrip
import WorldWind.Tiff.IfdChain
import WorldWind.Dted.Theorems
import WorldWind.Dds.Theorems
import WorldWind.Dds.BlockCompressorTheorems
import WorldWind.TaskServices.Theorems
import WorldWind.TreeNodes.Theorems
import WorldWind.Vpf.WingedEdgeTheorems
import WorldWind.Vpf.Rings
import WorldWind.GeoSym.Tables
import WorldWind.TaskServices.TaskOrder
import WorldWind.SessionCache.Ledger
import WorldWind.Tiff.GeoCodec
import WorldWind.Sectors.SplitBounding
import WorldWind.Shapefile.BoundingRectangle
import WorldWind.Shapefile.PointsEstimate
import WorldWind.Rpf.FrameFilenameTheorems
import WorldWind.QuadTrees.QueryTheorems
import WorldWind.Geom.DmsString
import WorldWind.Elevations.Lookup
import WorldWind.Rasters.DrawOnTo
import WorldWind.Rasters.RectifyTheorems
import WorldWind.Symbology.SymbolCodeTheorems
import WorldWind.Atlas.Theorems
import WorldWind.Nmea.Streams
import WorldWind.Elevations.ExtremesTheorems
import WorldWind.Interpolator.Theorems
import WorldWind.Retrieve.ReadStream
import WorldWind.Sectors.IntersectsSegment
import WorldWind.Elevations.BulkDownload
import WorldWind.Tessellator.Intersect
import WorldWind.Tessellator.SurfacePointTheorems
import WorldWind.FileStore.QueryTheorems
import WorldWind.FileStore.ProbeTheorems
import WorldWind.Rpf.NonpolarTheorems
import WorldWind.Elevations.TileSetTheorems
import WorldWind.Tiff.ImageTheorems
import WorldWind.Geom.Quadrilateral
import WorldWind.GeometryBuilder.NormalTheorems
import WorldWind.GeometryBuilder.RectangleTheorems
import WorldWind.Bil.HeaderTheorems
import WorldWind.ImageTiler.Corners
import WorldWind.GeometryBuilder.PolygonTheorems
import WorldWind.GeometryBuilder.SubdivideTheorems
import WorldWind.GeometryBuilder.GridIndicesTheorems
import WorldWind.GeometryBuilder.SolidTheorems
import WorldWind.Geom.BilinearCoords
import WorldWind.Geom.TerrainRay
import WorldWind.QuadTrees.BitPositions
import WorldWind.Tiff.CodeReader
import WorldWind.Geom.PolytopeRay
import WorldWind.Lib.ClosedPath
import WorldWind.Geom.LocationInside
import WorldWind.Sectors.WindingOrder
import WorldWind.WWMath.VertexGrid
import WorldWind.Lib.DigitalLine
import WorldWind.WWMath.Bresenham
import WorldWind.Lib.NioLoops
import WorldWind.Dds.Decompressor
import WorldWind.Dds.Pixels
import WorldWind.Dds.Decoding
import WorldWind.Dds.RoundTrip
import WorldWind.Dds.PixelTheorems
import WorldWind.Lib.PrunedDescent
import WorldWind.Geom.Regions
import WorldWind.Tessellator.TileSelection
import WorldWind.Tessellator.TileSelectionTheorems
import WorldWind.Layers.TiledImageLayer
import WorldWind.Layers.TiledImageLayerTheorems
import WorldWind.Layers.FrameTheorems
import WorldWind.Xml.RegistryTheorems
